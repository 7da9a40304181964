import Line21.Proofs.Stream.Consumer
import Line21.Proofs.Stream.Timeline

/-!
# The course of a stream

The turns of a run are what the decoder reports for its units, together with the signals and
the restarts. Whatever the calls and whatever the decoder, a calm consumer takes exactly the
units that the timeline of these turns prescribes. The stream keeps the last caption in its
slot and counts its cues; both are read off the turns so far.
-/

namespace Line21

open Number.Binary64 (nearest?)

variable {δ σ : Type}

/-- The caption that a turn leaves waiting. -/
def Turn.pending? : Turn → Option Pending
  | shown _ start text => some { start, text }
  | _ => none

/-! ### What a stream remembers of its turns -/

namespace Stream

/-- A stream that has written some cues in this life and has last seen a turn. -/
structure Tracks (s : Stream δ) (before : Nat) (last : Option Turn) : Prop where
  held : s.slot.held = last.bind Turn.pending?
  nextNumber : s.nextNumber = before + 1
  headerWritten : s.headerWritten = decide (0 < before)
  format : ∀ f start text, last = some (.shown f start text) → s.format = some f

/-- A stream that differs in its decoder or in a new format remembers the same. -/
theorem Tracks.of_eq {s s' : Stream δ} {before : Nat} {last : Option Turn}
    (h : s.Tracks before last) (hslot : s'.slot = s.slot) (hnumber : s'.nextNumber = s.nextNumber)
    (hheader : s'.headerWritten = s.headerWritten)
    (hformat : ∀ f, s.format = some f → s'.format = some f) : s'.Tracks before last where
  held := by rw [hslot, h.held]
  nextNumber := by rw [hnumber, h.nextNumber]
  headerWritten := by rw [hheader, h.headerWritten]
  format f start text hl := hformat f (h.format f start text hl)

/-- A new turn alone is remembered when it makes no showing of the last one. -/
theorem Tracks.turn {s : Stream δ} {before : Nat} {last : Option Turn} (h : s.Tracks before last)
    {slot : Slot} {t : Turn} (hslot : slot.held = t.pending?)
    (hformat : ∀ f start text, t = .shown f start text → s.format = some f) :
    ({ s with slot } : Stream δ).Tracks before (some t) where
  held := hslot
  nextNumber := h.nextNumber
  headerWritten := h.headerWritten
  format f start text hl := hformat f start text (Option.some.inj hl)

/-- Writing the cue of the caption that waited writes its showing. -/
theorem emit_of_tracks {s : Stream δ} {before : Nat} {f : Format} {p : Pending}
    (h : s.Tracks before (some (.shown f p.start p.text))) (slot : Slot) (finish : Int) :
    ({ s with slot } : Stream δ).emit f p finish =
      ({ s with slot, headerWritten := true, nextNumber := before + 2 },
        Timeline.written before [⟨f, p.start, durationBetween p.start finish, p.text⟩]) := by
  have hw : Timeline.written before [⟨f, p.start, durationBetween p.start finish, p.text⟩] =
      (⟨f, p.start, durationBetween p.start finish, p.text⟩ : Showing).units before :=
    List.flatMap_singleton _ _
  rw [hw, emit, h.nextNumber, h.headerWritten, Showing.units]
  cases before <;> rfl

/-- Writing a cue counts it, and leaves the turn that ended its caption. -/
theorem tracks_written {s : Stream δ} (before : Nat) {slot : Slot} {t : Turn}
    (hslot : slot.held = t.pending?)
    (hformat : ∀ f start text, t = .shown f start text → s.format = some f) :
    ({ s with slot, headerWritten := true, nextNumber := before + 2 } : Stream δ).Tracks
      (before + 1) (some t) where
  held := hslot
  nextNumber := rfl
  headerWritten := (decide_eq_true (Nat.succ_pos before)).symm
  format f start text hl := hformat f start text (Option.some.inj hl)

/-- What waits is the caption of the last turn. -/
theorem Tracks.eq_shown {s : Stream δ} {before : Nat} {last : Option Turn}
    (h : s.Tracks before last) {p : Pending} (hp : s.slot.held = some p) :
    ∃ f, s.format = some f ∧ last = some (.shown f p.start p.text) := by
  rw [h.held] at hp
  obtain ⟨t, rfl, ht⟩ := Option.bind_eq_some_iff.mp hp
  cases t with
  | shown f start text =>
    obtain rfl := Option.some.inj ht
    exact ⟨f, h.format f start text rfl, rfl⟩
  | cleared _ | finished | flushed | restarted => cases ht

/-- When nothing waits, the next turn makes no showing. -/
theorem Tracks.showing?_eq_none {s : Stream δ} {before : Nat} {last : Option Turn}
    (h : s.Tracks before last) (hp : s.slot.held = none) (t : Turn) :
    last.bind (·.showing? t) = none := by
  cases last with
  | none => rfl
  | some last =>
    cases last with
    | shown f start text =>
      have := h.held
      rw [hp] at this
      cases this
    | cleared _ | finished | flushed | restarted => rfl

/-- The cue of the caption that waits, if one does, is written when a turn at a time ends it. -/
theorem emitHeld_of_tracks {s : Stream δ} {before : Nat} {last : Option Turn}
    (h : s.Tracks before last) {f : Format} (hf : s.format = some f) {slot : Slot} {t : Turn}
    {time : Int} (hslot : slot.held = t.pending?)
    (hformat : ∀ f start text, t = .shown f start text → s.format = some f)
    (hstay : ∀ start, t.stay start = some (durationBetween start time)) :
    ∃ s', ({ s with slot } : Stream δ).emitHeld f s.slot.held time =
        (s', Timeline.written before (last.bind (·.showing? t)).toList) ∧
      s'.Tracks (before + (last.bind (·.showing? t)).toList.length) (some t) := by
  cases hp : s.slot.held with
  | none =>
    rw [h.showing?_eq_none hp]
    exact ⟨_, rfl, h.turn hslot hformat⟩
  | some p =>
    obtain ⟨g, hg, rfl⟩ := h.eq_shown hp
    obtain rfl : g = f := Option.some.inj (hg.symm.trans hf)
    have hs : (some (Turn.shown g p.start p.text)).bind (·.showing? t) =
        some ⟨g, p.start, durationBetween p.start time, p.text⟩ := by
      simp only [Option.bind_some, Turn.showing?, hstay, Option.map_some]
    rw [hs]
    exact ⟨_, emit_of_tracks h slot time, tracks_written before hslot hformat⟩

/-- At the end the caption that waits is written with no duration. -/
theorem drain_of_tracks {s : Stream δ} {before : Nat} {last : Option Turn}
    (h : s.Tracks before last) :
    s.drain.2 = Timeline.written before (last.bind (·.showing? .finished)).toList ∧
      s.drain.1.Tracks (before + (last.bind (·.showing? .finished)).toList.length)
        (some .finished) := by
  have hformat : ∀ f start text, Turn.finished = .shown f start text → s.format = some f := by
    intro f start text ht
    cases ht
  cases hp : s.slot.held with
  | none =>
    have hd : s.drain = ({ s with slot := .empty }, []) := by simp only [drain, Slot.take, hp]
    rw [h.showing?_eq_none hp, hd]
    exact ⟨rfl, h.turn rfl hformat⟩
  | some p =>
    obtain ⟨f, hf, rfl⟩ := h.eq_shown hp
    have hd : s.drain = ({ s with slot := .empty } : Stream δ).emit f p p.start := by
      simp only [drain, Slot.take, hp, hf]
    rw [hd, emit_of_tracks h, durationBetween_self]
    exact ⟨rfl, tracks_written before rfl hformat⟩

private theorem emitHeld_frame (s : Stream δ) (f : Format) (held : Option Pending) (finish : Int) :
    (s.emitHeld f held finish).1.format = s.format ∧
      (s.emitHeld f held finish).1.decoder = s.decoder := by
  cases held with
  | none => exact ⟨rfl, rfl⟩
  | some p => exact ⟨rfl, rfl⟩

end Stream

/-- Negotiating is not remembered. -/
theorem Link.tracks_negotiate [Downstream σ] {l : Link δ σ} {before : Nat} {last : Option Turn}
    (h : l.stream.Tracks before last) (c : Caps) :
    (l.negotiate c).1.stream.Tracks before last := by
  rcases l.stream_negotiate c with hs | ⟨hf, f, hs⟩
  · rw [hs]
    exact h
  · rw [hs]
    refine h.of_eq rfl rfl rfl fun g hg ↦ ?_
    rw [hf] at hg
    cases hg

/-! ### The turns of a run -/

variable [CaptionDecoder δ]

namespace Stream

/-- The turn that the outcome of a pair makes at a time, for a decoder that has taken the pair
in. A caption that comes up but cannot be rendered is no turn. -/
def turnOf (format : Format) (time : Int) (decoder : δ) : Except ParityError Moment → Option Turn
  | .ok .shown => (CaptionDecoder.render decoder).toOption.map (.shown format time)
  | .ok .cleared => some (.cleared time)
  | _ => none

/-- What a unit lets the decoder hear: a pair at a time in seconds, under the format and the
time of the unit. Nothing is heard of a unit that is refused or too short. -/
def heard? (s : Stream δ) (u : CaptionUnit) : Option (Format × Int × BytePair × Rat) :=
  match s.format, u.time, u.data with
  | some format, some time, first :: second :: _ =>
    (nearest? (time / nanosecondsPerSecond)).map fun seconds ↦
      (format, time, ⟨first, second⟩, seconds)
  | _, _, _ => none

/-- The turn that a unit brings about, if the decoder hears and reports one. -/
def turn? (s : Stream δ) (u : CaptionUnit) : Option Turn :=
  (s.heard? u).bind fun (format, time, pair, seconds) ↦
    let (decoder, outcome) := CaptionDecoder.decode s.decoder pair seconds
    turnOf format time decoder outcome

/-- A stream that starts over has written nothing in its new life. -/
theorem tracks_fresh {last : Option Turn} (h : last.bind Turn.pending? = none) :
    (fresh : Stream δ).Tracks 0 last where
  held := h.symm
  nextNumber := rfl
  headerWritten := rfl
  format f start text hl := by subst hl; cases h

/-- A flush makes the caption that waits forgotten, and nothing is written of it. -/
theorem flush_of_tracks {s : Stream δ} {before : Nat} {last : Option Turn}
    (h : s.Tracks before last) : s.flush.Tracks before (some .flushed) := by
  have ht : ({ s with slot := .empty } : Stream δ).Tracks before (some .flushed) :=
    h.turn rfl fun _ _ _ he ↦ nomatch he
  exact ht.of_eq rfl rfl rfl fun _ hg ↦ hg

private theorem react_of_turnOf_eq_none {s : Stream δ} {f : Format} {time : Int}
    {outcome : Except ParityError Moment} (h : turnOf f time s.decoder outcome = none) :
    s.react f time outcome = (s, []) := by
  cases outcome with
  | error e => rfl
  | ok moment =>
    cases moment with
    | quiet => rfl
    | cleared => cases h
    | shown =>
      rw [turnOf, Option.map_eq_none_iff] at h
      rw [react]
      cases hr : CaptionDecoder.render s.decoder with
      | error e => rfl
      | ok text => rw [hr] at h; cases h

private theorem react_of_turnOf_eq_some {s : Stream δ} {before : Nat} {last : Option Turn}
    (h : s.Tracks before last) {f : Format} (hf : s.format = some f) {time : Int} {t : Turn}
    {outcome : Except ParityError Moment} (ht : turnOf f time s.decoder outcome = some t) :
    ∃ s', s.react f time outcome =
        (s', Timeline.written before (last.bind (·.showing? t)).toList) ∧
      s'.Tracks (before + (last.bind (·.showing? t)).toList.length) (some t) := by
  cases outcome with
  | error e => cases ht
  | ok moment =>
    cases moment with
    | quiet => cases ht
    | cleared =>
      obtain rfl : Turn.cleared time = t := Option.some.inj ht
      exact emitHeld_of_tracks h hf rfl (fun _ _ _ he ↦ nomatch he) fun _ ↦ rfl
    | shown =>
      rw [turnOf, Option.map_eq_some_iff] at ht
      obtain ⟨text, hr, rfl⟩ := ht
      rw [react]
      cases hd : CaptionDecoder.render s.decoder with
      | error e => rw [hd] at hr; cases hr
      | ok shown =>
        rw [hd] at hr
        obtain rfl : shown = text := Option.some.inj hr
        refine emitHeld_of_tracks h hf rfl ?_ fun _ ↦ rfl
        intro g start x he
        obtain ⟨rfl, -, -⟩ := Turn.shown.inj he
        exact hf

/-- A unit of which nothing is heard leaves the stream alone, whether or not it is refused. -/
theorem accept_of_heard?_eq_none {s : Stream δ} {u : CaptionUnit} (h : s.heard? u = none) :
    s.accept u = .ok (s, []) ∨ ∃ e, s.accept u = .error e := by
  rw [heard?] at h
  rw [accept]
  split at h
  · next f time first second rest hf ht hd =>
    rw [Option.map_eq_none_iff] at h
    rw [hf, ht, hd]
    unfold acceptTimed
    dsimp only
    rw [h]
    exact .inr ⟨_, rfl⟩
  · next hn =>
    split
    · exact .inr ⟨_, rfl⟩
    · next f hf =>
      split
      · exact .inr ⟨_, rfl⟩
      · next time ht =>
        unfold acceptTimed
        split
        · next first second rest hd => exact absurd hd (hn f time first second rest hf ht)
        · exact .inl rfl

/-- A unit that is heard is decoded and reacted to. -/
theorem accept_of_heard?_eq_some {s : Stream δ} {u : CaptionUnit} {f : Format} {time : Int}
    {pair : BytePair} {seconds : Rat} (h : s.heard? u = some (f, time, pair, seconds)) :
    s.format = some f ∧
      s.accept u =
        .ok (({ s with decoder := (CaptionDecoder.decode s.decoder pair seconds).1 } :
          Stream δ).react f time (CaptionDecoder.decode s.decoder pair seconds).2) := by
  rw [heard?] at h
  split at h
  · next g time' first second rest hf ht hd =>
    rw [Option.map_eq_some_iff] at h
    obtain ⟨seconds', hs, he⟩ := h
    cases he
    refine ⟨hf, ?_⟩
    simp only [accept, hf, ht, hd]
    unfold acceptTimed
    simp only [hs, hf]
  · cases h

/-- Reacting to a pair keeps the format and the decoder. -/
theorem react_frame (s : Stream δ) (f : Format) (time : Int)
    (outcome : Except ParityError Moment) :
    (s.react f time outcome).1.format = s.format ∧
      (s.react f time outcome).1.decoder = s.decoder := by
  cases outcome with
  | error e => exact ⟨rfl, rfl⟩
  | ok moment =>
    cases moment with
    | quiet => exact ⟨rfl, rfl⟩
    | cleared => exact emitHeld_frame _ f _ time
    | shown =>
      rw [react]
      split
      · exact ⟨rfl, rfl⟩
      · exact emitHeld_frame _ f _ time

/-- A unit is taken in when nothing is heard of it, and then changes nothing, or when its pair is
decoded and reacted to. -/
theorem accept_cases {s s' : Stream δ} {u : CaptionUnit} {us : List TextUnit}
    (h : s.accept u = .ok (s', us)) :
    (s.heard? u = none ∧ s' = s ∧ us = []) ∨
      ∃ f time pair seconds, s.heard? u = some (f, time, pair, seconds) ∧ s.format = some f ∧
        ({ s with decoder := (CaptionDecoder.decode s.decoder pair seconds).1 } :
          Stream δ).react f time (CaptionDecoder.decode s.decoder pair seconds).2 = (s', us) := by
  cases hh : s.heard? u with
  | none =>
    rcases accept_of_heard?_eq_none hh with he | ⟨e, he⟩
    · rw [he] at h
      cases h
      exact .inl ⟨rfl, rfl, rfl⟩
    · rw [he] at h
      cases h
  | some heard =>
    obtain ⟨f, time, pair, seconds⟩ := heard
    obtain ⟨hf, he⟩ := accept_of_heard?_eq_some hh
    rw [he] at h
    exact .inr ⟨f, time, pair, seconds, rfl, hf, Except.ok.inj h⟩

/-- A unit gives out the showing that its turn completes, and is remembered by its turn. A unit
that is no turn gives out nothing. -/
theorem accept_of_tracks {s s' : Stream δ} {before : Nat} {last : Option Turn}
    (h : s.Tracks before last) {u : CaptionUnit} {us : List TextUnit}
    (ha : s.accept u = .ok (s', us)) :
    match s.turn? u with
    | none => us = [] ∧ s'.Tracks before last
    | some t =>
      us = Timeline.written before (last.bind (·.showing? t)).toList ∧
        s'.Tracks (before + (last.bind (·.showing? t)).toList.length) (some t) := by
  rcases accept_cases ha with ⟨hh, rfl, rfl⟩ | ⟨f, time, pair, seconds, hh, hf, hr⟩
  · rw [turn?, hh, Option.bind_none]
    exact ⟨rfl, h⟩
  · have ht : s.turn? u = turnOf f time (CaptionDecoder.decode s.decoder pair seconds).1
        (CaptionDecoder.decode s.decoder pair seconds).2 := by
      rw [turn?, hh, Option.bind_some]
    rw [ht]
    have hd : ({ s with decoder := (CaptionDecoder.decode s.decoder pair seconds).1 } :
        Stream δ).Tracks before last := h.of_eq rfl rfl rfl fun _ hg ↦ hg
    cases hk : turnOf f time (CaptionDecoder.decode s.decoder pair seconds).1
        (CaptionDecoder.decode s.decoder pair seconds).2 with
    | none =>
      rw [react_of_turnOf_eq_none hk] at hr
      cases hr
      exact ⟨rfl, hd⟩
    | some t =>
      obtain ⟨s'', hs, hs'⟩ := react_of_turnOf_eq_some hd hf hk
      rw [hs] at hr
      cases hr
      exact ⟨rfl, hs'⟩

/-- A unit keeps the format. -/
theorem format_accept {s s' : Stream δ} {u : CaptionUnit} {us : List TextUnit}
    (h : s.accept u = .ok (s', us)) : s'.format = s.format := by
  rcases accept_cases h with ⟨-, rfl, -⟩ | ⟨f, time, pair, seconds, -, -, hr⟩
  · rfl
  · have hframe := react_frame ({ s with
      decoder := (CaptionDecoder.decode s.decoder pair seconds).1 } : Stream δ) f time
      (CaptionDecoder.decode s.decoder pair seconds).2
    rw [hr] at hframe
    exact hframe.1

/-- An answer to a signal keeps the format. -/
theorem format_raise (s : Stream δ) (e : Signal) : (s.raise e).1.format = s.format := by
  cases e with
  | flush => rfl
  | finish =>
    simp only [raise, drain, Slot.take]
    split <;> rfl

private theorem turn?_of_accept_eq_error {s : Stream δ} {u : CaptionUnit} {e : StreamError}
    (h : s.accept u = .error e) : s.turn? u = none := by
  cases hh : s.heard? u with
  | none => rw [turn?, hh, Option.bind_none]
  | some heard =>
    obtain ⟨f, time, pair, seconds⟩ := heard
    rw [(accept_of_heard?_eq_some hh).2] at h
    cases h

/-- A unit never makes a stream start over. -/
theorem turn?_ne_restarted (s : Stream δ) (u : CaptionUnit) : s.turn? u ≠ some .restarted := by
  intro h
  rw [turn?, Option.bind_eq_some_iff] at h
  obtain ⟨⟨f, time, pair, seconds⟩, -, ht⟩ := h
  dsimp only at ht
  rw [turnOf.eq_def] at ht
  split at ht
  · obtain ⟨text, -, hs⟩ := Option.map_eq_some_iff.mp ht
    cases hs
  · cases ht
  · cases ht

end Stream

namespace Link

variable [Downstream σ]

/-- A unit keeps the format, whatever the consumer does. -/
theorem format_accept (l : Link δ σ) (u : CaptionUnit) :
    (l.accept u).1.stream.format = l.stream.format := by
  rw [accept]
  split
  · rfl
  · next s us h =>
    refine stream_deliver (P := (·.format = l.stream.format)) ?_ (Stream.format_accept h) _ _ _
    intro s e hs
    exact (s.format_raise e).trans hs

/-- A signal keeps the format, whatever the consumer does. -/
theorem format_signal (l : Link δ σ) (e : Signal) :
    (l.signal e).1.stream.format = l.stream.format := by
  refine stream_deliver (P := (·.format = l.stream.format)) ?_ (l.stream.format_raise e) _ _ _
  intro s e hs
  exact (s.format_raise e).trans hs

/-- The turn that a call brings about, if any. -/
def turn? (l : Link δ σ) : Call → Option Turn
  | .unit u => l.stream.turn? u
  | .caps _ => none
  | .signal .flush => some .flushed
  | .signal .finish => some .finished
  | .transition t => if t.restarts then some .restarted else none

/-- The turns of a run of calls, in order. -/
def turns (l : Link δ σ) : List Call → List Turn
  | [] => []
  | c :: calls => (l.turn? c).toList ++ (l.call c).1.turns calls

/-- A run in two parts is the second part after the first. -/
theorem run_append (l : Link δ σ) (calls calls' : List Call) :
    l.run (calls ++ calls') = (l.run calls).run calls' := List.foldl_append

/-- The turns of a run in two parts are those of the first part and then those of the second. -/
theorem turns_append (l : Link δ σ) (calls calls' : List Call) :
    l.turns (calls ++ calls') = l.turns calls ++ (l.run calls).turns calls' := by
  induction calls generalizing l with
  | nil => rfl
  | cons c calls ih =>
    rw [List.cons_append, turns, turns, ih, List.append_assoc]
    rfl

open Downstream (Records Calm pushAll taken_pushAll)

/-- A unit that is a turn writes the showing that it completes and is remembered; any other
unit writes nothing. -/
theorem accept_of_tracks {taken : σ → List TextUnit} (hr : Records taken) (hc : Calm σ)
    {l : Link δ σ} {before : Nat} {last : Option Turn} (h : l.stream.Tracks before last)
    (u : CaptionUnit) :
    match l.stream.turn? u with
    | none =>
      taken (l.accept u).1.downstream = taken l.downstream ∧
        (l.accept u).1.stream.Tracks before last
    | some t =>
      taken (l.accept u).1.downstream =
          taken l.downstream ++ Timeline.written before (last.bind (·.showing? t)).toList ∧
        (l.accept u).1.stream.Tracks (before + (last.bind (·.showing? t)).toList.length)
          (some t) := by
  cases ha : l.stream.accept u with
  | error e =>
    rw [Stream.turn?_of_accept_eq_error ha, accept_of_error l u ha]
    exact ⟨rfl, h⟩
  | ok r =>
    obtain ⟨s, us⟩ := r
    have hs := Stream.accept_of_tracks h ha
    rw [accept_of_ok hc l u ha]
    cases ht : l.stream.turn? u with
    | none =>
      rw [ht] at hs
      refine ⟨?_, hs.2⟩
      rw [taken_pushAll hr hc, hs.1, List.append_nil]
    | some t =>
      rw [ht] at hs
      refine ⟨?_, hs.2⟩
      rw [taken_pushAll hr hc, hs.1]

/-- A call is a turn when the stream writes the showing that the turn completes, and remembers
the turn; otherwise it writes nothing and remembers what it did. -/
theorem call_of_tracks {taken : σ → List TextUnit} (hr : Records taken) (hc : Calm σ)
    {l : Link δ σ} {before : Nat} {last : Option Turn} (h : l.stream.Tracks before last)
    (c : Call) :
    match l.turn? c with
    | none =>
      taken (l.call c).1.downstream = taken l.downstream ∧ (l.call c).1.stream.Tracks before last
    | some t =>
      taken (l.call c).1.downstream =
          taken l.downstream ++ Timeline.written before (last.bind (·.showing? t)).toList ∧
        (l.call c).1.stream.Tracks
          (if t = .restarted then 0 else before + (last.bind (·.showing? t)).toList.length)
          (some t) := by
  cases c with
  | unit u =>
    have hs := accept_of_tracks hr hc h u
    rw [turn?]
    cases ht : l.stream.turn? u with
    | none =>
      rw [ht] at hs
      exact hs
    | some t =>
      rw [ht] at hs
      have hne : t ≠ .restarted := fun he ↦ l.stream.turn?_ne_restarted u (he ▸ ht)
      dsimp only
      rw [if_neg hne]
      exact hs
  | caps c => exact ⟨taken_negotiate hr l c, tracks_negotiate h c⟩
  | signal e =>
    cases e with
    | flush =>
      have hl : (l.call (.signal .flush)).1 =
          ⟨l.stream.flush, (Downstream.notify l.downstream .flush).1⟩ := l.signal_flush
      have hs : last.bind (·.showing? .flushed) = none :=
        Turn.bind_showing?_of_stay (fun _ ↦ rfl) last
      simp only [turn?, hl, hs, reduceCtorEq, if_false]
      refine ⟨?_, Stream.flush_of_tracks h⟩
      rw [hr.taken_notify]
      exact (List.append_nil _).symm
    | finish =>
      have hl : (l.call (.signal .finish)).1 = (l.signal .finish).1 := rfl
      rw [l.signal_finish hc] at hl
      obtain ⟨hd, ht⟩ := Stream.drain_of_tracks h
      simp only [turn?, hl, reduceCtorEq, if_false]
      refine ⟨?_, ht⟩
      rw [hr.taken_notify, taken_pushAll hr hc, hd]
  | transition t =>
    rw [turn?, call, transit]
    by_cases ht : t.restarts = true
    · rw [if_pos ht, if_pos ht]
      dsimp only
      rw [if_pos rfl, Turn.bind_showing?_of_stay fun _ ↦ rfl]
      exact ⟨(List.append_nil _).symm, Stream.tracks_fresh rfl⟩
    · rw [if_neg ht, if_neg ht]
      exact ⟨rfl, h⟩

/-- From a stream that remembers its turns on, a consumer takes what the turns to come write. -/
theorem taken_run_of_tracks {taken : σ → List TextUnit} (hr : Records taken) (hc : Calm σ)
    {l : Link δ σ} {before : Nat} {last : Option Turn} (h : l.stream.Tracks before last)
    (calls : List Call) :
    taken (l.run calls).downstream =
      taken l.downstream ++ Timeline.writtenFrom before last (l.turns calls) := by
  induction calls generalizing l before last with
  | nil => exact (List.append_nil _).symm
  | cons c calls ih =>
    have hs := call_of_tracks hr hc h c
    change taken ((l.call c).1.run calls).downstream = _
    rw [turns]
    cases ht : l.turn? c with
    | none =>
      rw [ht] at hs
      rw [ih hs.2, hs.1]
      rfl
    | some t =>
      rw [ht] at hs
      rw [ih hs.2, hs.1, List.append_assoc]
      rfl

/-- A calm consumer of a fresh stream takes what the turns of the run write. -/
theorem taken_run {taken : σ → List TextUnit} (hr : Records taken) (hc : Calm σ) (d : σ)
    (calls : List Call) :
    taken ((⟨.fresh, d⟩ : Link δ σ).run calls).downstream =
      taken d ++ Timeline.units ((⟨.fresh, d⟩ : Link δ σ).turns calls) := by
  have hf : (Stream.fresh : Stream δ).Tracks 0 none := Stream.tracks_fresh rfl
  rw [taken_run_of_tracks hr hc hf, Timeline.writtenFrom_zero]

/-- Whatever the decoder reports and whatever is called, a calm consumer takes exactly what the
turns of the run prescribe. A caption that came up is written once, when the next turn ends
it, with the time up to that turn; it has no duration at the end of the stream, and a flush or
a restart makes it forgotten. Cues follow each other as their captions came up. -/
theorem written_once_in_order {taken : σ → List TextUnit} (hr : Records taken) (hc : Calm σ)
    (d : σ) (calls : List Call) :
    let turns := (⟨.fresh, d⟩ : Link δ σ).turns calls
    taken ((⟨.fresh, d⟩ : Link δ σ).run calls).downstream = taken d ++ Timeline.units turns ∧
      (((Timeline.lives turns).flatMap Timeline.showings).map Showing.caption).Sublist
        (turns.filterMap Turn.caption?) :=
  ⟨taken_run hr hc d calls, Timeline.captions_lives_sublist _⟩

/-- Two captions are written, the second one up to the clearing of the screen; a third one is
flushed away. -/
theorem written_once_in_order_flushed :
    Records (fun c : Collector ↦ c.units.toList) ∧ Calm Collector ∧
      ((⟨.fresh, .only .webVtt⟩ : Link Receiver Collector).run
        [.transition .readyToPaused, .caps .captionPairs, .unit ⟨[0x94, 0x29], some 0⟩,
          .unit ⟨[0xc1, 0x80], some 1000000000⟩, .unit ⟨[0xc2, 0x80], some 1500000000⟩,
          .unit ⟨[0x94, 0x2c], some 2500000000⟩, .unit ⟨[0x43, 0x80], some 3000000000⟩,
          .signal .flush, .signal .finish]).downstream.units.toList =
        [⟨"WEBVTT\r\n\r\n", 1000000000, none⟩,
          ⟨"00:00:01.000 --> 00:00:01.500\r\nA\r\n\r\n", 1000000000, some 500000000⟩,
          ⟨"00:00:01.500 --> 00:00:02.500\r\nAB\r\n\r\n", 1500000000, some 1000000000⟩] := by
  refine ⟨Collector.records, Collector.calm, ?_⟩
  let calls : List Call :=
    [.transition .readyToPaused, .caps .captionPairs, .unit ⟨[0x94, 0x29], some 0⟩,
      .unit ⟨[0xc1, 0x80], some 1000000000⟩, .unit ⟨[0xc2, 0x80], some 1500000000⟩,
      .unit ⟨[0x94, 0x2c], some 2500000000⟩, .unit ⟨[0x43, 0x80], some 3000000000⟩,
      .signal .flush, .signal .finish]
  have ht : (⟨.fresh, .only .webVtt⟩ : Link Receiver Collector).turns calls =
      [.restarted, .shown .webVtt 1000000000 "A", .shown .webVtt 1500000000 "AB",
        .cleared 2500000000, .shown .webVtt 3000000000 "C", .flushed, .finished] := by
    decide +kernel
  have hw := (written_once_in_order (δ := Receiver) Collector.records Collector.calm
    (.only .webVtt) calls).1
  rw [ht] at hw
  exact hw.trans (by decide +kernel)

end Link

end Line21
