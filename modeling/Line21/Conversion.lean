import Line21.Stream.Downstream

/-!
# Conversion

A collector is a consumer that keeps every unit that it is given, never fails and never
refuses. A link to a collector for one format agrees on that format. A whole sequence of caption
units is converted by leading one stream through its life: it starts over, agrees on the format,
takes in every unit and comes to its end.
-/

namespace Line21

/-- A consumer that keeps what it is given. -/
structure Collector where
  /-- What it accepts; everything, unless there is a list. -/
  allowed : Option (List Caps) := none
  /-- The units taken and not yet handed out, in order. -/
  units : Array TextUnit := #[]
  /-- What was announced last. -/
  announced : Option Caps := none
  /-- The signals passed on, in order. -/
  signals : Array Signal := #[]
  deriving DecidableEq, Repr

namespace Collector

/-- A collector for one format. -/
def only (f : Format) : Collector := { allowed := some [f.caps] }

/-- The units kept, and the collector without them. -/
def takeUnits (c : Collector) : List TextUnit × Collector :=
  (c.units.toList, { c with units := #[] })

instance : Downstream Collector where
  offer c := (c, c.allowed)
  push c u := ({ c with units := c.units.push u }, .ok none)
  announce c caps := ({ c with announced := some caps }, true)
  notify c e := ({ c with signals := c.signals.push e }, true)

end Collector

/-- A link between a receiver and a collector that has agreed on a format. -/
def Link.opened (format : Format) : Link Receiver Collector :=
  (Link.negotiate (Link.restart ⟨.fresh, .only format⟩) Caps.captionPairs).1

/-- The negotiation that opens a link succeeds with the format asked for. -/
theorem Link.format_opened (format : Format) :
    (Link.opened format).stream.format = some format := by
  cases format <;> rfl

namespace Conversion

/-- The units of timed text of a sequence of caption units, the header included. -/
def units (format : Format) (input : List CaptionUnit) : Except StreamError (List TextUnit) :=
  match (Link.opened format).acceptAll input with
  | (_, .error e) => .error e
  | (l, .ok ()) =>
    match l.signal .finish with
    | (_, .error e) => .error e
    | (l, .ok _) => .ok l.downstream.units.toList

/-- The document of a sequence of caption units. -/
def document (format : Format) (input : List CaptionUnit) : Except StreamError String :=
  (units format input).map format.join

end Conversion

end Line21
