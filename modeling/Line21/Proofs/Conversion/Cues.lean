import Line21.Proofs.Conversion.Turns
import Line21.Proofs.Stream.Noise

/-!
# The cues of a conversion

A format decides how cues are worded and whether a header opens them, and nothing else. A unit
that stops a conversion stops it in every format, with the same error. Streams that have agreed
on different formats keep alike while they take in the same units, so their turns differ in the
format alone, and a conversion writes the same cues in every format.
-/

namespace Line21

open Number.Binary64 (nearest?)

/-! ### Units that are refused -/

/-- Why a stream refuses a unit when it has agreed on a format. What it has taken in before does
not matter. -/
def CaptionUnit.fault? (u : CaptionUnit) : Option StreamError :=
  match u.time, u.data with
  | none, _ => some .missingTime
  | some time, _ :: _ :: _ => if TimeInRange time then none else some (.number .quotientRange)
  | some _, _ => none

namespace CaptionUnit

variable {u : CaptionUnit}

/-- A unit without a time is at fault, whatever it holds. -/
theorem fault?_of_untimed (h : u.time = none) : u.fault? = some .missingTime := by
  rw [fault?, h]

/-- A unit with a time is not at fault if it holds no pair, or its time can be put in seconds. -/
theorem fault?_of_timed {time : Int} (h : u.time = some time)
    (hr : u.data.length < 2 ∨ TimeInRange time) : u.fault? = none := by
  obtain ⟨data, _⟩ := u
  obtain rfl := h
  match data with
  | _ :: _ :: rest =>
    have hl : ¬ (rest.length + 1 + 1 < 2) := by omega
    exact if_pos (hr.resolve_left hl)
  | [_] | [] => rfl

/-- A pair is at fault at a time that cannot be put in seconds. -/
theorem fault?_of_out_of_range {time : Int} (h : u.time = some time) (hl : 2 ≤ u.data.length)
    (hr : ¬ TimeInRange time) : u.fault? = some (.number .quotientRange) := by
  obtain ⟨data, _⟩ := u
  obtain rfl := h
  match data with
  | _ :: _ :: _ => exact if_neg hr
  | [_] | [] => simp at hl

/-- A unit with a time is not at fault. -/
theorem IsTimed.fault?_eq_none (h : u.IsTimed) : u.fault? = none := by
  obtain ⟨time, ht, hr⟩ := h
  exact fault?_of_timed ht (.inr hr)

end CaptionUnit

section Faults

variable {δ σ : Type} [CaptionDecoder δ] [Downstream σ]

/-- A stream that has agreed on a format refuses the units that are at fault, and no others. -/
theorem Stream.accept_eq_error_iff {s : Stream δ} {f : Format} (hf : s.format = some f)
    {u : CaptionUnit} {e : StreamError} : s.accept u = .error e ↔ u.fault? = some e := by
  rcases u with ⟨data, time⟩
  cases time with
  | none => simp [accept, hf, CaptionUnit.fault?]
  | some time =>
    rcases data with - | ⟨first, - | ⟨second, rest⟩⟩
    case cons.cons =>
      simp only [accept, hf, CaptionUnit.fault?]
      unfold acceptTimed
      cases hn : nearest? (time / nanosecondsPerSecond) with
      | none =>
        have ht : ¬ TimeInRange time := by
          rw [TimeInRange, hn]
          exact Bool.false_ne_true
        rw [if_neg ht, Except.error.injEq, Option.some.injEq]
      | some seconds =>
        have ht : TimeInRange time := by
          rw [TimeInRange, hn]
          rfl
        simp only [if_pos ht, reduceCtorEq]
    all_goals
      simp only [accept, hf, CaptionUnit.fault?]
      unfold acceptTimed
      simp only [reduceCtorEq]

/-- A stream that has agreed on a format takes in a unit that is not at fault. -/
theorem Stream.exists_accept {s : Stream δ} {f : Format} (hf : s.format = some f)
    {u : CaptionUnit} (h : u.fault? = none) : ∃ s' us, s.accept u = .ok (s', us) := by
  cases ha : s.accept u with
  | ok r => exact ⟨r.1, r.2, rfl⟩
  | error e =>
    rw [accept_eq_error_iff hf, h] at ha
    cases ha

/-- Units are taken in up to the first that is at fault. -/
theorem Link.acceptAll_snd (hc : Downstream.Calm σ) {l : Link δ σ} {f : Format}
    (hf : l.stream.format = some f) (us : List CaptionUnit) :
    (l.acceptAll us).2 =
      match us.findSome? CaptionUnit.fault? with
      | some e => .error e
      | none => .ok () := by
  induction us generalizing l with
  | nil => rfl
  | cons u us ih =>
    rw [acceptAll, List.findSome?_cons]
    cases hu : u.fault? with
    | some e => rw [accept_of_error l u ((Stream.accept_eq_error_iff hf).mpr hu)]
    | none =>
      obtain ⟨s, out, hs⟩ := Stream.exists_accept hf hu
      rw [accept_of_ok hc l u hs]
      exact ih ((Stream.format_accept hs).trans hf)

end Faults

/-! ### Streams under different formats -/

namespace Turn

/-- A turn of a stream that has agreed on another format. -/
def under (f : Format) : Turn → Turn
  | shown _ time text => shown f time text
  | t => t

private theorem stay_under (f : Format) (start : Int) (t : Turn) :
    (t.under f).stay start = t.stay start := by
  cases t <;> rfl

end Turn

/-- A showing of a stream that has agreed on another format. -/
def Showing.under (f : Format) (s : Showing) : Showing := { s with format := f }

private theorem Timeline.showings_under (f : Format) (ts : List Turn) :
    showings (ts.map (Turn.under f)) = (showings ts).map (Showing.under f) := by
  induction ts with
  | nil => rfl
  | cons t ts ih =>
    cases ts with
    | nil => rfl
    | cons next ts =>
      rw [List.map_cons] at ih ⊢
      rw [List.map_cons, showings_cons_cons, ih, showings_cons_cons, List.map_append]
      congr 1
      cases t with
      | shown g start text =>
        have hs : (Turn.under f (.shown g start text)).showing? (next.under f) =
            (next.stay start).map fun duration ↦ ⟨f, start, duration, text⟩ :=
          congrArg (Option.map _) (Turn.stay_under f start next)
        rw [hs, Turn.showing?]
        cases next.stay start <;> rfl
      | cleared _ | finished | flushed | restarted => rfl

namespace Stream

variable {δ : Type}

/-- A stream that has agreed on another format. -/
def under (f : Format) (s : Stream δ) : Stream δ := { s with format := some f }

/-- Under another format the decoder hears the same of a unit. -/
theorem heard?_under {s : Stream δ} {f : Format} (hf : s.format = some f) (g : Format)
    (u : CaptionUnit) :
    (s.under g).heard? u = (s.heard? u).map fun heard ↦ (g, heard.2) := by
  rcases u with ⟨data, time⟩
  cases time with
  | none => simp only [heard?, hf, under, Option.map_none]
  | some time =>
    rcases data with - | ⟨first, - | ⟨second, rest⟩⟩
    case cons.cons =>
      simp only [heard?, hf, under, Option.map_map]
      rfl
    all_goals simp only [heard?, hf, under, Option.map_none]

private theorem emitHeld_under (s : Stream δ) (f g : Format) (held : Option Pending)
    (finish : Int) :
    ((s.under g).emitHeld g held finish).1 = (s.emitHeld f held finish).1.under g := by
  cases held <;> rfl

variable [CaptionDecoder δ]

private theorem turnOf_under (f g : Format) (time : Int) (decoder : δ)
    (outcome : Except ParityError Moment) :
    turnOf g time decoder outcome = (turnOf f time decoder outcome).map (Turn.under g) := by
  cases outcome with
  | error e => rfl
  | ok moment =>
    cases moment with
    | quiet | cleared => rfl
    | shown =>
      simp only [turnOf, Option.map_map]
      rfl

private theorem turn?_under {s : Stream δ} {f : Format} (hf : s.format = some f) (g : Format)
    (u : CaptionUnit) : (s.under g).turn? u = (s.turn? u).map (Turn.under g) := by
  rw [turn?, turn?, heard?_under hf g u, Option.bind_map, Option.map_bind]
  congr 1
  funext heard
  exact turnOf_under heard.1 g _ _ _

private theorem react_under (s : Stream δ) (f g : Format) (time : Int)
    (outcome : Except ParityError Moment) :
    ((s.under g).react g time outcome).1 = (s.react f time outcome).1.under g := by
  cases outcome with
  | error e => rfl
  | ok moment =>
    cases moment with
    | quiet => rfl
    | cleared => exact emitHeld_under { s with slot := .empty } f g s.slot.held time
    | shown =>
      have hd : (s.under g).decoder = s.decoder := rfl
      rw [react, react, hd]
      cases CaptionDecoder.render s.decoder with
      | error e => rfl
      | ok text => exact emitHeld_under { s with slot := ⟨some ⟨time, text⟩⟩ } f g s.slot.held time

private theorem accept_under {s s' : Stream δ} {f : Format} (hf : s.format = some f) (g : Format)
    {u : CaptionUnit} {us : List TextUnit} (h : s.accept u = .ok (s', us)) :
    ∃ us', (s.under g).accept u = .ok (s'.under g, us') := by
  rcases accept_cases h with ⟨hh, rfl, -⟩ | ⟨f', time, pair, seconds, hh, -, hr⟩
  · have hh' : (s'.under g).heard? u = none := by
      rw [heard?_under hf, hh]
      rfl
    rcases accept_of_heard?_eq_none hh' with ha | ⟨e, ha⟩
    · exact ⟨[], ha⟩
    · rw [accept_eq_error_iff rfl, ← accept_eq_error_iff hf, h] at ha
      cases ha
  · have hh' : (s.under g).heard? u = some (g, time, pair, seconds) := by
      rw [heard?_under hf, hh]
      rfl
    have hs := (react_under _ f' g time _).trans (congrArg (under g) (congrArg Prod.fst hr))
    exact ⟨_, (accept_of_heard?_eq_some hh').2.trans (congrArg Except.ok (Prod.ext hs rfl))⟩

end Stream

namespace Link

variable {δ σ τ : Type} [CaptionDecoder δ] [Downstream σ] [Downstream τ]

private theorem restarted_not_mem_turns (l : Link δ σ) (us : List CaptionUnit) :
    .restarted ∉ l.turns (us.map .unit) := by
  induction us generalizing l with
  | nil => exact List.not_mem_nil
  | cons u us ih =>
    rw [List.map_cons, turns, List.mem_append, Option.mem_toList]
    rintro (h | h)
    · exact l.stream.turn?_ne_restarted u h
    · exact ih _ h

private theorem turns_under (hσ : Downstream.Calm σ)
    (hτ : Downstream.Calm τ) {l : Link δ σ} {l' : Link δ τ} {f g : Format}
    (hf : l.stream.format = some f) (hl : l'.stream = l.stream.under g) (us : List CaptionUnit) :
    l'.turns (us.map .unit) = (l.turns (us.map .unit)).map (Turn.under g) := by
  induction us generalizing l l' with
  | nil => rfl
  | cons u us ih =>
    have hturn : l'.turn? (.unit u) = (l.turn? (.unit u)).map (Turn.under g) := by
      rw [turn?, turn?, hl, Stream.turn?_under hf]
    rw [List.map_cons, turns, turns, hturn, List.map_append, ← Option.toList_map]
    congr 1
    cases hu : l.stream.accept u with
    | error e =>
      have hu' : l'.stream.accept u = .error e := by
        rw [Stream.accept_eq_error_iff hf] at hu
        rwa [Stream.accept_eq_error_iff (by rw [hl]; rfl)]
      have h : (l.call (.unit u)).1 = l := by rw [call, accept_of_error l u hu]
      have h' : (l'.call (.unit u)).1 = l' := by rw [call, accept_of_error l' u hu']
      rw [h, h']
      exact ih hf hl
    | ok r =>
      obtain ⟨us', hu'⟩ := Stream.accept_under hf g hu
      rw [← hl] at hu'
      have h : (l.call (.unit u)).1.stream = r.1 := by rw [call, accept_of_ok hσ l u hu]
      have h' : (l'.call (.unit u)).1.stream = r.1.under g := by
        rw [call, accept_of_ok hτ l' u hu']
      exact ih (by rw [h, Stream.format_accept hu, hf]) (by rw [h', h])

end Link

/-! ### What a conversion writes -/

/-- Cues in the words of a format, after the header of the first in formats that have one. -/
def Format.written (f : Format) (cues : List Cue) : List TextUnit :=
  (cues.head?.bind fun c ↦ f.header c.start).toList ++ cues.map f.render

namespace Timeline

/-- The cues of a timeline without restarts, numbered from one. -/
def cues (ts : List Turn) : List Cue := (showings ts).zipIdx.map fun (s, i) ↦ s.cue (i + 1)

private theorem written_under (f : Format) (ss : List Showing) :
    written 0 (ss.map (Showing.under f)) =
      f.written (ss.zipIdx.map fun (s, i) ↦ s.cue (i + 1)) := by
  have hbehind (before : Nat) (ss : List Showing) :
      written (before + 1) (ss.map (Showing.under f)) =
        ((ss.zipIdx (before + 1)).map fun (s, i) ↦ s.cue (i + 1)).map f.render := by
    induction ss generalizing before with
    | nil => rfl
    | cons s ss ih =>
      simp only [written] at ih ⊢
      simp only [List.map_cons, List.zipIdx_cons, List.flatMap_cons, ih]
      rfl
  cases ss with
  | nil => rfl
  | cons s ss =>
    have h := written_append 0 [s.under f] (ss.map (Showing.under f))
    rw [List.length_singleton, hbehind] at h
    rw [List.map_cons, ← List.singleton_append, h]
    simp only [written, Format.written, List.zipIdx_cons, List.map_cons, List.head?_cons,
      Option.bind_some, List.zipIdx_nil, List.flatMap_cons, List.flatMap_nil, List.append_nil,
      Showing.units, if_true, List.append_assoc, List.singleton_append]
    rfl

/-- The cues of a timeline are numbered from one on. -/
theorem map_number_cues (ts : List Turn) :
    (cues ts).map (·.number) = (List.range' 1 (cues ts).length).map Nat.cast := by
  apply List.ext_getElem
  · simp
  · intro i hi hj
    simp [cues, Showing.cue]
    omega

end Timeline

namespace Conversion

/-- The cues that a conversion of units writes. -/
def cues (input : List CaptionUnit) : List Cue :=
  Timeline.cues ((Link.opened .plain).turns (input.map .unit) ++ [.finished])

/-- A unit at fault stops a conversion in every format. Otherwise the same cues are written in
every format. -/
theorem units_eq (f : Format) (input : List CaptionUnit) :
    units f input =
      match input.findSome? CaptionUnit.fault? with
      | some e => .error e
      | none => .ok (f.written (cues input)) := by
  have hsnd := Link.acceptAll_snd Collector.calm (Link.format_opened f) input
  cases hfault : input.findSome? CaptionUnit.fault? with
  | some e =>
    rw [hfault] at hsnd
    have ha : (Link.opened f).acceptAll input = (((Link.opened f).acceptAll input).1, .error e) :=
      Prod.ext rfl hsnd
    rw [units, ha]
  | none =>
    rw [hfault] at hsnd
    have hstream : (Link.opened f).stream = (Link.opened .plain).stream.under f := by
      cases f <;> rfl
    have hturns := Link.turns_under Collector.calm Collector.calm (Link.format_opened .plain)
      hstream input
    have hend : (Link.opened f).turns (input.map .unit) ++ [.finished] =
        ((Link.opened .plain).turns (input.map .unit) ++ [Turn.finished]).map (Turn.under f) := by
      rw [hturns, List.map_append]
      rfl
    have hn : .restarted ∉ (Link.opened f).turns (input.map .unit) ++ [.finished] := by
      rw [List.mem_append, List.mem_singleton]
      rintro (h | h)
      · exact Link.restarted_not_mem_turns _ _ h
      · cases h
    have htakes : (Link.opened f).Takes input _ _ := ⟨Prod.ext rfl hsnd, rfl⟩
    rw [units_of_takes htakes, Timeline.units, Timeline.lives_of_not_mem hn,
      List.flatMap_singleton, hend, Timeline.showings_under, Timeline.written_under]
    rfl

/-- Units with times in range have a document in every format. -/
theorem exists_document (format : Format) {input : List CaptionUnit}
    (h : ∀ u ∈ input, u.IsTimed) : ∃ text, document format input = .ok text := by
  have hfault : input.findSome? CaptionUnit.fault? = none :=
    List.findSome?_eq_none_iff.mpr fun u hu ↦ (h u hu).fault?_eq_none
  refine ⟨format.join (format.written (cues input)), ?_⟩
  rw [document, units_eq, hfault]
  rfl

/-- Either every format stops a conversion with the same error, or there are cues, numbered from
one, that every format writes: plain text as their texts with their starts and durations, SubRip
each in its words, and WebVTT too, after a header with the start of the first if there is one. -/
theorem same_cues_in_every_format (input : List CaptionUnit) :
    (∃ e, ∀ f, units f input = .error e) ∨
      ∃ cues : List Cue,
        cues.map (·.number) = (List.range' 1 cues.length).map Nat.cast ∧
        units .plain input = .ok (cues.map fun c ↦ ⟨c.text, c.start, some c.duration⟩) ∧
        units .subRip input = .ok (cues.map Format.subRip.render) ∧
        units .webVtt input =
          .ok ((cues.head?.map fun c ↦ ⟨"WEBVTT\r\n\r\n", c.start, none⟩).toList ++
            cues.map Format.webVtt.render) := by
  cases hfault : input.findSome? CaptionUnit.fault? with
  | some e =>
    refine .inl ⟨e, fun f ↦ ?_⟩
    rw [units_eq, hfault]
  | none =>
    have hw (f : Format) : units f input = .ok (f.written (cues input)) := by
      rw [units_eq, hfault]
    have hn := Timeline.map_number_cues
      ((Link.opened .plain).turns (input.map .unit) ++ [.finished])
    refine .inr ⟨cues input, hn, ?_, ?_, ?_⟩
    · rw [hw]
      cases cues input <;> rfl
    · rw [hw]
      cases cues input <;> rfl
    · rw [hw]
      cases cues input <;> rfl

example :
    let input : List CaptionUnit :=
      [⟨[0x94, 0x29], some 0⟩, ⟨[0xc1, 0x80], some 1000000000⟩, ⟨[0x94, 0x2c], some 2500000000⟩]
    (units .plain input).toOption = some [⟨"A", 1000000000, some 1500000000⟩] ∧
      (units .subRip input).toOption =
        some [⟨"01\r\n0:00:01,000 --> 00:00:02,500\r\nA\r\n\r\n", 1000000000,
          some 1500000000⟩] ∧
      (units .webVtt input).toOption =
        some [⟨"WEBVTT\r\n\r\n", 1000000000, none⟩,
          ⟨"00:00:01.000 --> 00:00:02.500\r\nA\r\n\r\n", 1000000000, some 1500000000⟩] := by
  decide +kernel

end Conversion

end Line21
