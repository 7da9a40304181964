import Line21.Conversion
import Line21.Proofs.Receiver.Gates
import Line21.Proofs.Stream.Course

/-!
# The turns of a conversion

A conversion that takes in all of its units writes what their turns prescribe, with the end
of the stream behind them. A receiver under a stream makes a turn of each pair that it hears,
according to the moment that it tells.
-/

namespace Line21

open Number.Binary64 (nearest?)

/-- A time in seconds is a binary64 number. -/
def TimeInRange (time : Int) : Prop := (nearest? (time / nanosecondsPerSecond)).isSome

instance (time : Int) : Decidable (TimeInRange time) := inferInstanceAs (Decidable (_ = true))

/-- A pair that is on the air at a time. -/
structure Aired where
  pair : BytePair
  time : Int
  deriving DecidableEq, Repr

namespace Aired

/-- The unit that carries a pair, each byte with its parity. -/
def unit (a : Aired) : CaptionUnit := ⟨[a.pair.sent.first, a.pair.sent.second], some a.time⟩

/-- What is heard of a pair. -/
def heard (a : Aired) : BytePair := a.pair.stripped

end Aired

/-! ### Units that are all taken in -/

section Takes

variable {δ σ : Type} [CaptionDecoder δ] [Downstream σ]

/-- A link takes in units, which bring about turns, and is another link afterwards. -/
structure Link.Takes (l : Link δ σ) (us : List CaptionUnit) (ts : List Turn) (l' : Link δ σ) :
    Prop where
  accepted : l.acceptAll us = (l', .ok ())
  turns : l.turns (us.map .unit) = ts

namespace Link

/-- Units that are taken in lead to where a run of calls with them leads, and the units after
them are taken in from there. -/
theorem acceptAll_append {l l' : Link δ σ} {us : List CaptionUnit}
    (h : l.acceptAll us = (l', .ok ())) (us' : List CaptionUnit) :
    l.run (us.map .unit) = l' ∧ l.acceptAll (us ++ us') = l'.acceptAll us' := by
  induction us generalizing l with
  | nil =>
    obtain rfl : l = l' := congrArg Prod.fst h
    exact ⟨rfl, rfl⟩
  | cons u us ih =>
    rw [acceptAll] at h
    split at h
    · next l₁ hu =>
      have hc : (l.call (.unit u)).1 = l₁ := congrArg Prod.fst hu
      rw [List.cons_append, acceptAll, hu]
      have hr : l.run ((u :: us).map .unit) = (l.call (.unit u)).1.run (us.map .unit) := rfl
      rw [hr, hc]
      exact ih h
    · cases h

namespace Takes

/-- Nothing is taken in. -/
theorem nil (l : Link δ σ) : l.Takes [] [] l := ⟨rfl, rfl⟩

/-- Units are taken in after others. -/
theorem append {l l' l'' : Link δ σ} {us us' : List CaptionUnit} {ts ts' : List Turn}
    (h : l.Takes us ts l') (h' : l'.Takes us' ts' l'') :
    l.Takes (us ++ us') (ts ++ ts') l'' := by
  obtain ⟨hr, ha⟩ := acceptAll_append h.accepted us'
  refine ⟨ha.trans h'.accepted, ?_⟩
  rw [List.map_append, turns_append, hr, h.turns, h'.turns]

end Takes

end Link

end Takes

/-! ### A receiver under a stream -/

namespace Stream

variable {δ : Type}

private theorem accept_aired {s : Stream Receiver} {f : Format} (hf : s.format = some f) {a : Aired}
    (ha : TimeInRange a.time) :
    ∃ s' us, s.accept a.unit = .ok (s', us) ∧ s'.format = some f ∧
      s'.decoder = (s.decoder.step a.heard).1 ∧
      s.turn? a.unit =
        turnOf f a.time (s.decoder.step a.heard).1 (.ok (s.decoder.step a.heard).2) := by
  obtain ⟨seconds, hs⟩ := Option.isSome_iff_exists.mp ha
  have hh : s.heard? a.unit = some (f, a.time, a.pair.sent, seconds) := by
    simp only [heard?, hf, Aired.unit, hs, Option.map_some]
  have hd : CaptionDecoder.decode s.decoder a.pair.sent seconds =
      ((s.decoder.step a.heard).1, .ok (s.decoder.step a.heard).2) := by
    apply CaptionDecoder.decode_of_receive_ok
    rw [Receiver.receive_of_parityHolds (BytePair.parityHolds_sent _), BytePair.stripped_sent]
    rfl
  have hu := (accept_of_heard?_eq_some hh).2
  rw [hd] at hu
  have hframe := react_frame
    ({ s with decoder := (s.decoder.step a.heard).1 } : Stream Receiver) f a.time
    (.ok (s.decoder.step a.heard).2)
  refine ⟨_, _, hu, hframe.1.trans hf, hframe.2, ?_⟩
  rw [turn?, hh, Option.bind_some]
  dsimp only
  rw [hd]

end Stream

section Receiving

variable {σ : Type} [Downstream σ]

/-- A link stands under a format with a receiver in a state. -/
structure Link.Stands (l : Link Receiver σ) (f : Format) (r : Receiver) : Prop where
  format : l.stream.format = some f
  decoder : l.stream.decoder = r

namespace Link

/-- A link that was opened stands with a receiver that has heard nothing. -/
theorem stands_opened (f : Format) : (opened f).Stands f .fresh where
  format := format_opened f
  decoder := by cases f <;> rfl

/-- A pair that is on the air is taken in, and is a turn according to its moment. -/
theorem takes_aired (hc : Downstream.Calm σ) {l : Link Receiver σ} {f : Format} {r : Receiver}
    (h : l.Stands f r) {a : Aired} (ha : TimeInRange a.time) :
    ∃ l', l.Takes [a.unit]
        (Stream.turnOf f a.time (r.step a.heard).1 (.ok (r.step a.heard).2)).toList l' ∧
      l'.Stands f (r.step a.heard).1 := by
  obtain ⟨s, us, hs, hformat, hdecoder, ht⟩ := Stream.accept_aired h.format ha
  rw [h.decoder] at hdecoder ht
  have hl := accept_of_ok hc l a.unit hs
  refine ⟨⟨s, Downstream.pushAll l.downstream us⟩, ⟨?_, ?_⟩, ⟨hformat, hdecoder⟩⟩
  · rw [acceptAll, hl]
    rfl
  · rw [List.map_cons, List.map_nil, turns, turn?, ht]
    exact List.append_nil _

/-- Pairs on the air that are heard quietly are taken in without a turn. -/
theorem takes_of_absorbs (hc : Downstream.Calm σ) {l : Link Receiver σ} {f : Format}
    {r r' : Receiver} (h : l.Stands f r) {airings : List Aired}
    (ha : ∀ a ∈ airings, TimeInRange a.time) (hr : r.Absorbs (airings.map Aired.heard) r') :
    ∃ l', l.Takes (airings.map Aired.unit) [] l' ∧ l'.Stands f r' := by
  induction airings generalizing l r with
  | nil =>
    obtain rfl : r = r' := congrArg Prod.fst hr
    exact ⟨l, .nil l, h⟩
  | cons a airings ih =>
    obtain ⟨hq, hr⟩ := Receiver.absorbs_cons.mp hr
    obtain ⟨l₁, ht, h₁⟩ := takes_aired hc h (ha a List.mem_cons_self)
    rw [hq] at ht
    obtain ⟨l₂, ht', h₂⟩ := ih h₁ (fun b hb ↦ ha b (List.mem_cons_of_mem a hb)) hr
    exact ⟨l₂, ht.append ht', h₂⟩

end Link

end Receiving

/-- A conversion that takes in all of its units writes what their turns and the end of the
stream prescribe. -/
theorem Conversion.units_of_takes {f : Format} {us : List CaptionUnit} {ts : List Turn}
    {l : Link Receiver Collector} (h : (Link.opened f).Takes us ts l) :
    units f us = .ok (Timeline.units (ts ++ [.finished])) := by
  have hopen : (⟨.fresh, .only f⟩ : Link Receiver Collector).run
      [.transition .readyToPaused, .caps .captionPairs] = Link.opened f := rfl
  have hrun : (Link.opened f).run (us.map .unit) = l := (Link.acceptAll_append h.accepted []).1
  have hend : l.run [.signal .finish] = (l.signal .finish).1 := rfl
  have ht := Link.taken_run (δ := Receiver) Collector.records Collector.calm (.only f)
    ([.transition .readyToPaused, .caps .captionPairs] ++ (us.map .unit ++ [.signal .finish]))
  have hturns : (⟨.fresh, .only f⟩ : Link Receiver Collector).turns
      ([.transition .readyToPaused, .caps .captionPairs] ++ (us.map .unit ++ [.signal .finish])) =
        .restarted :: (ts ++ [.finished]) := by
    rw [Link.turns_append, hopen, Link.turns_append, h.turns]
    rfl
  rw [hturns, Timeline.units_restarted, Link.run_append, hopen, Link.run_append, hrun, hend] at ht
  rw [Link.signal_finish Collector.calm] at ht
  rw [units, h.accepted]
  dsimp only
  rw [Link.signal_finish Collector.calm]
  exact congrArg Except.ok ht

end Line21
