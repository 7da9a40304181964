import Line21.Proofs.Stream.Handover
import Line21.Proofs.Stream.Numbering

/-!
# Negotiation

A record beside a consumer keeps all that the stream asks it for and tells it, and changes nothing.
Main statements: since the last restart a consumer has heard one announcement at most, of the format
that the stream is in and stays in, and every unit that it was handed is the header of this format
or the text of a cue in it; a negotiation that fails leaves the stream as it was, except that the
consumer cannot decline the announcement of a format.
-/

namespace Line21

open Downstream (offer push announce notify)

variable {δ σ : Type}

/-! ### Ways in which a negotiation goes -/

namespace Link

variable [Downstream σ] {l : Link δ σ} {input : Caps}

/-- Nothing more is negotiated once there is a format. -/
theorem negotiate_of_format {f : Format} (hf : l.stream.format = some f) (input : Caps) :
    l.negotiate input = (l, .ok true) := by
  rw [negotiate, hf]
  rfl

/-- Input without pairs is refused. -/
theorem negotiate_of_input (hf : l.stream.format = none) (hi : input.carriesPairs = false) :
    l.negotiate input = (l, .ok false) := by
  rw [negotiate, hf, hi]
  rfl

/-- A consumer is asked for what it accepts, and no format may come of it. -/
theorem negotiate_of_offer_error (hf : l.stream.format = none) (hi : input.carriesPairs = true)
    {e : OfferError} (ho : Format.choose (offer l.downstream).2 = .error e) :
    l.negotiate input = (⟨l.stream, (offer l.downstream).1⟩, .error (.offer e)) := by
  simp only [negotiate, hf, hi, ho, Option.isSome_none, Bool.false_eq_true, Bool.not_true, if_false]

/-- The format that comes of what a consumer accepts is agreed upon and announced. -/
theorem negotiate_of_offer_ok (hf : l.stream.format = none) (hi : input.carriesPairs = true)
    {f : Format} (ho : Format.choose (offer l.downstream).2 = .ok f) :
    l.negotiate input =
      (⟨{ l.stream with format := some f }, (announce (offer l.downstream).1 f.caps).1⟩,
        .ok (announce (offer l.downstream).1 f.caps).2) := by
  simp only [negotiate, hf, hi, ho, Option.isSome_none, Bool.false_eq_true, Bool.not_true, if_false]

end Link

/-! ### Records of consumers -/

/-- Something that a stream tells its consumer, or asks it for. -/
inductive Told
  /-- What the consumer accepts was asked for. -/
  | asked
  | announced (c : Caps)
  | delivered (x : Delivery)
  deriving DecidableEq, Repr

/-- What was announced. -/
def Told.announced? : Told → Option Caps
  | .announced c => some c
  | .asked | .delivered _ => none

/-- The unit that was handed over. -/
def Told.unit? : Told → Option TextUnit
  | .delivered (.unit u) => some u
  | .asked | .announced _ | .delivered (.signal _) => none

/-- A consumer with a record of what it was told, in order. Units count as told even if the consumer
fails to take them. -/
structure Recorded (σ : Type) where
  consumer : σ
  told : List Told := []
  deriving DecidableEq, Repr

namespace Recorded

/-- The record of a consumer that was told something and has moved on. -/
def tell (d : Recorded σ) (consumer : σ) (x : Told) : Recorded σ := ⟨consumer, d.told ++ [x]⟩

instance [Downstream σ] : Downstream (Recorded σ) where
  offer d := (d.tell (offer d.consumer).1 .asked, (offer d.consumer).2)
  push d u := (d.tell (push d.consumer u).1 (.delivered (.unit u)), (push d.consumer u).2)
  announce d c := (d.tell (announce d.consumer c).1 (.announced c), (announce d.consumer c).2)
  notify d e := (d.tell (notify d.consumer e).1 (.delivered (.signal e)), (notify d.consumer e).2)

end Recorded

/-- A link without the record of its consumer. -/
def Link.bare (l : Link δ (Recorded σ)) : Link δ σ := ⟨l.stream, l.downstream.consumer⟩

namespace Link

variable [Downstream σ]

private theorem bare_negotiate (l : Link δ (Recorded σ)) (input : Caps) :
    l.bare.negotiate input = ((l.negotiate input).1.bare, (l.negotiate input).2) := by
  cases hf : l.stream.format with
  | some f =>
    have hb : l.bare.stream.format = some f := hf
    rw [negotiate_of_format hf, negotiate_of_format hb]
  | none =>
    have hb : l.bare.stream.format = none := hf
    cases hi : input.carriesPairs with
    | false => rw [negotiate_of_input hf hi, negotiate_of_input hb hi]
    | true =>
      cases ho : Format.choose (offer l.downstream).2 with
      | error e =>
        rw [negotiate_of_offer_error hf hi ho, negotiate_of_offer_error hb hi ho]
        rfl
      | ok f =>
        rw [negotiate_of_offer_ok hf hi ho, negotiate_of_offer_ok hb hi ho]
        rfl

variable [CaptionDecoder δ]

/-- A delivery goes on as if nobody kept a record. -/
theorem bare_deliver (s : Stream δ) (d : Recorded σ) (answer : Bool) (agenda : List Delivery) :
    deliver s d.consumer answer agenda =
      ((deliver s d answer agenda).1.bare, (deliver s d answer agenda).2) := by
  fun_induction deliver s d answer agenda with
  | case1 s d answer =>
    rw [deliver]
    rfl
  | case2 s d answer e rest d' answer' h ih =>
    obtain ⟨rfl, rfl⟩ := Prod.mk.inj h
    rw [deliver]
    exact ih
  | case3 s d answer u rest d' reason h =>
    obtain ⟨rfl, hp⟩ := Prod.mk.inj h
    rw [deliver, show push d.consumer u = (_, .error reason) from Prod.ext rfl hp]
    rfl
  | case4 s d answer u rest d' h ih =>
    obtain ⟨rfl, hp⟩ := Prod.mk.inj h
    rw [deliver, show push d.consumer u = (_, .ok none) from Prod.ext rfl hp]
    exact ih
  | case5 s d answer u rest d' e h ih =>
    obtain ⟨rfl, hp⟩ := Prod.mk.inj h
    rw [deliver, show push d.consumer u = (_, .ok (some e)) from Prod.ext rfl hp]
    exact ih

/-- A call goes on as if nobody kept a record. -/
theorem bare_call (l : Link δ (Recorded σ)) (c : Call) :
    l.bare.call c = ((l.call c).1.bare, (l.call c).2) := by
  obtain ⟨s, d⟩ := l
  cases c with
  | unit u =>
    simp only [call, accept, bare]
    cases s.accept u with
    | error e => rfl
    | ok r =>
      dsimp only
      rw [bare_deliver r.1 d]
      rfl
  | caps input =>
    simp only [call]
    rw [bare_negotiate]
  | signal e =>
    simp only [call, signal, bare]
    rw [bare_deliver _ d]
    rfl
  | transition t =>
    simp only [call, transit, bare]
    split <;> rfl

/-- A run goes on as if nobody kept a record. -/
theorem bare_run (l : Link δ (Recorded σ)) (calls : List Call) :
    (l.run calls).bare = l.bare.run calls := by
  induction calls generalizing l with
  | nil => rfl
  | cons c calls ih =>
    have hc : (l.bare.call c).1 = (l.call c).1.bare := congrArg Prod.fst (l.bare_call c)
    change ((l.call c).1.run calls).bare = (l.bare.call c).1.run calls
    rw [ih, hc]

end Link

/-! ### What a consumer is told -/

/-- What a consumer was told while a stream came from a format to another: the announcement of the
new one, if it is new, and the units of pieces. -/
structure Told.Agrees (before after : Option Format) (pieces : List Piece) (told : List Told) :
    Prop where
  announced : (after.map Format.caps).toList =
    (before.map Format.caps).toList ++ told.filterMap announced?
  units : told.filterMap unit? = pieces.map Piece.unit

/-- A consumer has come to be told what agrees with the formats of a stream and with pieces. -/
def Recorded.Heard (d d' : Recorded σ) (before after : Option Format) (pieces : List Piece) :
    Prop :=
  ∃ told, d'.told = d.told ++ told ∧ Told.Agrees before after pieces told

namespace Recorded.Heard

variable {d d' d'' : Recorded σ} {before between after : Option Format} {pieces more : List Piece}

private theorem refl (d : Recorded σ) (format : Option Format) : d.Heard d format format [] :=
  ⟨[], (List.append_nil _).symm, (List.append_nil _).symm, rfl⟩

/-- What was told goes on with what is told next. -/
theorem trans (h : d.Heard d' before between pieces) (h' : d'.Heard d'' between after more) :
    d.Heard d'' before after (pieces ++ more) := by
  obtain ⟨told, ht, ha⟩ := h
  obtain ⟨told', ht', ha'⟩ := h'
  refine ⟨told ++ told', ?_, ?_, ?_⟩
  · rw [ht', ht, List.append_assoc]
  · rw [ha'.announced, ha.announced, List.filterMap_append, List.append_assoc]
  · rw [List.filterMap_append, ha.units, ha'.units, List.map_append]

/-- Whatever a consumer is told besides announcements, the format stays. -/
theorem tell (d : Recorded σ) (consumer : σ) (format : Option Format) {x : Told}
    (hx : x.announced? = none) {pieces : List Piece}
    (hu : x.unit?.toList = pieces.map Piece.unit) :
    d.Heard (d.tell consumer x) format format pieces := by
  refine ⟨[x], rfl, ?_, ?_⟩
  · rw [List.filterMap_cons_none hx]
    exact (List.append_nil _).symm
  · rw [← hu]
    cases h : x.unit? with
    | none => exact List.filterMap_cons_none h
    | some u => exact List.filterMap_cons_some h

end Recorded.Heard

namespace Link

variable [Downstream σ]

/-- A negotiation announces the format that it ends with, if there was none before. -/
theorem heard_negotiate (l : Link δ (Recorded σ)) (input : Caps) :
    l.downstream.Heard (l.negotiate input).1.downstream l.stream.format
      (l.negotiate input).1.stream.format [] := by
  cases hf : l.stream.format with
  | some f =>
    rw [negotiate_of_format hf, hf]
    exact .refl _ _
  | none =>
    cases hi : input.carriesPairs with
    | false =>
      rw [negotiate_of_input hf hi, hf]
      exact .refl _ _
    | true =>
      cases ho : Format.choose (offer l.downstream).2 with
      | error e =>
        rw [negotiate_of_offer_error hf hi ho, hf]
        exact .tell l.downstream _ none rfl rfl
      | ok f =>
        rw [negotiate_of_offer_ok hf hi ho]
        exact ⟨[.asked, .announced f.caps], List.append_assoc _ _ _, rfl, rfl⟩

variable [CaptionDecoder δ]

/-- A delivery tells of the pieces that are handed over, and announces nothing. -/
theorem heard_deliver (format : Option Format) (s : Stream δ) (d : Recorded σ) (answer : Bool)
    (parcels : List Parcel) :
    d.Heard (deliver s d answer (parcels.map Parcel.delivery)).1.downstream format format
      (hand s d parcels) := by
  fun_induction hand s d parcels generalizing answer with
  | case1 s d =>
    rw [List.map_nil, deliver]
    exact .refl d format
  | case2 s d e rest ih =>
    rw [List.map_cons, Parcel.delivery, deliver]
    have hd : d.Heard (notify d e).1 format format [] := .tell d _ format rfl rfl
    exact hd.trans (ih _)
  | case3 s d p rest d' reason h =>
    obtain ⟨rfl, -⟩ := Prod.mk.inj h
    rw [List.map_cons, Parcel.delivery, deliver, h]
    exact .tell d _ format rfl rfl
  | case4 s d p rest d' h ih =>
    have hd : d.Heard d' format format [p] := by
      obtain ⟨rfl, -⟩ := Prod.mk.inj h
      exact .tell d _ format rfl rfl
    rw [List.map_cons, Parcel.delivery, deliver, h]
    exact hd.trans (ih answer)
  | case5 s d p rest d' e h ih =>
    have hd : d.Heard d' format format [p] := by
      obtain ⟨rfl, -⟩ := Prod.mk.inj h
      exact .tell d _ format rfl rfl
    rw [List.map_cons, Parcel.delivery, deliver, h]
    dsimp only
    rw [Stream.raise_eq, ← List.map_append]
    exact hd.trans (ih answer)

/-- A call at which the stream does not start over tells of the pieces that are handed over, and of
the format that is new. -/
theorem heard_call (l : Link δ (Recorded σ)) {c : Call} (hc : c.restarts = false) :
    l.downstream.Heard (l.call c).1.downstream l.stream.format (l.call c).1.stream.format
      (l.handed c) := by
  cases c with
  | unit u =>
    have hformat : (l.call (.unit u)).1.stream.format = l.stream.format := l.format_accept u
    rw [hformat]
    cases ha : l.stream.accept u with
    | error e =>
      rw [call, accept_of_error l u ha, handed, ha]
      exact .refl _ _
    | ok r =>
      obtain ⟨s, us⟩ := r
      have hd := heard_deliver l.stream.format s l.downstream true ((l.stream.due u).map .piece)
      rw [Parcel.map_delivery_piece, ← Stream.accept_eq ha] at hd
      simp only [call, accept, handed, ha]
      exact hd
  | caps input => exact l.heard_negotiate input
  | signal e =>
    have hformat : (l.call (.signal e)).1.stream.format = l.stream.format := l.format_signal e
    have hd := heard_deliver l.stream.format (l.stream.raise e).1 l.downstream true
      (l.stream.raised e)
    rw [← Stream.raise_eq] at hd
    rw [hformat]
    exact hd
  | transition t =>
    rw [Call.restarts] at hc
    rw [call, transit, hc]
    exact .refl _ _

/-- A run in which the stream does not start over tells of the pieces that are handed over, and of
the format that is new. -/
theorem heard_run (l : Link δ (Recorded σ)) {calls : List Call}
    (hc : ∀ c ∈ calls, c.restarts = false) :
    l.downstream.Heard (l.run calls).downstream l.stream.format (l.run calls).stream.format
      (l.handedOver calls) := by
  induction calls generalizing l with
  | nil => exact .refl _ _
  | cons c calls ih =>
    rw [List.forall_mem_cons] at hc
    exact (l.heard_call hc.1).trans (ih _ hc.2)

/-- Since the last restart a consumer was told of one format at most, the one that the stream is in,
whatever it offered, failed to take or raised. The units that it was told of are in this format: the
header comes first, if the format has one, and each one after it is the text of a cue that the
stream has made of a caption, with the start and the duration of this cue. Once there is a format it
stays up to the next restart, and a negotiation is answered without a word to the consumer. While
there is none, nothing is written, input without pairs is refused, an offer of no format is an
error, and both leave the stream as it was; any other offer is agreed upon and announced at once. -/
theorem negotiated_once (d : σ) (calls : List Call) :
    let first : Link δ (Recorded σ) := ⟨.fresh, { consumer := d }⟩
    let start := first.run (Call.earlier calls)
    let l := first.run calls
    let cues := (start.handedOver (Call.since calls)).filterMap Piece.cue
    l.bare = (⟨.fresh, d⟩ : Link δ σ).run calls ∧
    (∃ told, l.downstream.told = start.downstream.told ++ told ∧
      told.filterMap Told.announced? = (l.stream.format.map Format.caps).toList ∧
      (∀ f, l.stream.format = some f →
        (cues = [] ∧ told.filterMap Told.unit? = []) ∨
          ∃ time, told.filterMap Told.unit? =
            (f.header time).toList ++ cues.map fun c ↦ ⟨f.cueText c, c.start, some c.duration⟩) ∧
      (l.stream.format = none → told.filterMap Told.unit? = [])) ∧
    (∀ f, l.stream.format = some f →
      (∀ input, l.negotiate input = (l, .ok true)) ∧
      ∀ more : List Call, (∀ c ∈ more, c.restarts = false) →
        (l.run more).stream.format = some f) ∧
    (l.stream.format = none → ∀ input : Caps,
      (input.carriesPairs = false → l.negotiate input = (l, .ok false)) ∧
      (∀ e, input.carriesPairs = true → Format.choose (offer l.downstream).2 = .error e →
        (l.negotiate input).1.stream = l.stream ∧ (l.negotiate input).2 = .error (.offer e)) ∧
      ∀ f, input.carriesPairs = true → Format.choose (offer l.downstream).2 = .ok f →
        (l.negotiate input).1.stream = { l.stream with format := some f } ∧
        (l.negotiate input).1.downstream.told =
          l.downstream.told ++ [.asked, .announced f.caps] ∧
        (l.negotiate input).2 = .ok (announce (offer l.downstream).1 f.caps).2) := by
  intro first start l cues
  have hstart : start.stream = .fresh := stream_run_earlier _ calls
  have hl : l = start.run (Call.since calls) := by
    rw [← run_append, Call.earlier_append_since]
  have hn : ∀ c ∈ Call.since calls, c.restarts = false := fun _ ↦ Call.restarts_of_mem_since
  refine ⟨first.bare_run calls, ?_, fun f hf ↦ ⟨?_, fun more hm ↦ ?_⟩, fun hf input ↦ ?_⟩
  -- The last life begins with a fresh stream, of which the consumer was told nothing.
  · obtain ⟨told, ht, ha, hu⟩ := start.heard_run hn
    rw [hstart, ← hl] at ha
    refine ⟨told, hl ▸ ht, ha.symm, fun f hf ↦ ?_, fun hf ↦ ?_⟩
    · have h0 : start.stream.Counts 0 := by
        rw [hstart]
        exact Stream.counts_fresh
      rw [hl] at hf
      obtain ⟨after, hc⟩ := continues_run h0 hn (Stream.speaks_of_format hf)
      rw [hu]
      exact hc.units
    · rw [hl] at hf
      rw [hu, handedOver_of_format hn hf]
      rfl
  · exact negotiate_of_format hf
  · exact format_run hm hf
  · refine ⟨negotiate_of_input hf, fun e hi ho ↦ ?_, fun f hi ho ↦ ?_⟩
    · rw [negotiate_of_offer_error hf hi ho]
      exact ⟨rfl, rfl⟩
    · rw [negotiate_of_offer_ok hf hi ho]
      exact ⟨rfl, List.append_assoc _ _ _, rfl⟩

/-- After a restart a unit that comes too early and input without pairs are refused. Then SubRip is
agreed upon once more, and two captions are written in it although other input is announced between
them. -/
theorem negotiated_once_subRip :
    let calls : List Call :=
      [.caps .captionPairs, .transition .pausedToReady, .unit ⟨[0x94, 0x29], some 0⟩,
        .caps ⟨"text/plain", []⟩, .caps .captionPairs, .unit ⟨[0x94, 0x29], some 0⟩,
        .unit ⟨[0xc1, 0x80], some 1000000000⟩, .caps ⟨"text/plain", []⟩,
        .unit ⟨[0x94, 0x2c], some 2500000000⟩, .unit ⟨[0xc2, 0x80], some 3000000000⟩,
        .signal .finish]
    let consumer : Stage := { allowed := some [Format.subRip.caps] }
    let first : Link Receiver (Recorded Stage) := ⟨.fresh, { consumer }⟩
    let start := first.run (Call.earlier calls)
    let l := first.run calls
    let cues := (start.handedOver (Call.since calls)).filterMap Piece.cue
    l.stream.format = some .subRip ∧ l.negotiate ⟨"text/plain", []⟩ = (l, .ok true) ∧
    cues = [⟨1000000000, 1500000000, "A", 1⟩, ⟨3000000000, 0, "B", 2⟩] ∧
    ∃ told, l.downstream.told = start.downstream.told ++ told ∧
      told.filterMap Told.announced? = [⟨"application/x-subtitle", []⟩] ∧
      told.filterMap Told.unit? =
        [⟨"01\r\n0:00:01,000 --> 00:00:02,500\r\nA\r\n\r\n", 1000000000, some 1500000000⟩,
          ⟨"02\r\n0:00:03,000 --> 00:00:03,000\r\nB\r\n\r\n", 3000000000, some 0⟩] := by
  intro calls consumer first start l cues
  have hf : l.stream.format = some .subRip := by decide +kernel
  have hcues : cues = [⟨1000000000, 1500000000, "A", 1⟩, ⟨3000000000, 0, "B", 2⟩] := by
    decide +kernel
  obtain ⟨-, ⟨told, ht, ha, hu, -⟩, hlater, -⟩ :=
    negotiated_once (δ := Receiver) consumer calls
  refine ⟨hf, (hlater .subRip hf).1 _, hcues, told, ht, ?_, ?_⟩
  · exact ha.trans (congrArg (fun format ↦ (format.map Format.caps).toList) hf)
  · rcases hu .subRip hf with ⟨hnil, -⟩ | ⟨time, hu⟩
    · have hne : cues ≠ [] := by
        rw [hcues]
        exact List.cons_ne_nil _ _
      exact absurd hnil hne
    · have hheader : (Format.subRip.header time).toList = [] := rfl
      refine (hu.trans (congrArg (_ ++ List.map _ ·) hcues)).trans ?_
      rw [hheader]
      decide +kernel

end Link

/-! ### Negotiations that fail -/

namespace Link

variable [Downstream σ]

/-- A consumer declines the announcement of the format that comes of its offer. -/
def Declines (l : Link δ σ) (input : Caps) : Prop :=
  l.stream.format = none ∧ input.carriesPairs = true ∧
    ∃ f, Format.choose (offer l.downstream).2 = .ok f ∧
      (announce (offer l.downstream).1 f.caps).2 = false

private theorem stream_negotiate_of_not_declines {l : Link δ σ} {input : Caps}
    (h : (l.negotiate input).2 ≠ .ok true) (hd : ¬ l.Declines input) :
    l.stream.format = none ∧ (l.negotiate input).1.stream = l.stream := by
  cases hf : l.stream.format with
  | some f =>
    rw [negotiate_of_format hf] at h
    exact absurd rfl h
  | none =>
    refine ⟨rfl, ?_⟩
    cases hi : input.carriesPairs with
    | false => rw [negotiate_of_input hf hi]
    | true =>
      cases ho : Format.choose (offer l.downstream).2 with
      | error e => rw [negotiate_of_offer_error hf hi ho]
      | ok f =>
        rw [negotiate_of_offer_ok hf hi ho] at h
        refine absurd ⟨hf, hi, f, ho, ?_⟩ hd
        exact Bool.eq_false_iff.mpr fun ha ↦ h (congrArg Except.ok ha)

private theorem told_negotiate {l : Link δ (Recorded σ)} (hf : l.stream.format = none)
    {input : Caps} (hi : input.carriesPairs = true) :
    ∃ more, (l.negotiate input).1.downstream.told = l.downstream.told ++ .asked :: more := by
  cases ho : Format.choose (offer l.downstream).2 with
  | error e =>
    rw [negotiate_of_offer_error hf hi ho]
    exact ⟨[], rfl⟩
  | ok f =>
    rw [negotiate_of_offer_ok hf hi ho]
    exact ⟨[.announced f.caps], List.append_assoc _ _ _⟩

variable [CaptionDecoder δ]

/-- A negotiation only fails while there is no format. It leaves the stream as it was unless the
consumer declines the announcement: units are refused for want of a format, and on the next input of
pairs the consumer is asked again. When it declines, the stream is in the format all the same, and
whatever is negotiated from then on is answered as if it had been accepted. -/
theorem failed_negotiation_leaves_stream_unless_declined {l : Link δ (Recorded σ)} {input : Caps}
    (h : (l.negotiate input).2 ≠ .ok true) :
    let after := (l.negotiate input).1
    l.stream.format = none ∧
    (¬ l.Declines input →
      after.stream = l.stream ∧
      (∀ u, after.accept u = (after, .error .notNegotiated)) ∧
      ∀ later : Caps, later.carriesPairs = true →
        ∃ more, (after.negotiate later).1.downstream.told =
          after.downstream.told ++ .asked :: more) ∧
    (l.Declines input →
      (l.negotiate input).2 = .ok false ∧
      ∃ f, Format.choose (offer l.downstream).2 = .ok f ∧
        after.stream = { l.stream with format := some f } ∧
        ∀ later, after.negotiate later = (after, .ok true)) := by
  intro after
  by_cases hd : l.Declines input
  · refine ⟨hd.1, fun hn ↦ absurd hd hn, fun _ ↦ ?_⟩
    obtain ⟨hf, hi, f, ho, ha⟩ := hd
    have hr := negotiate_of_offer_ok hf hi ho
    have hs : after.stream = { l.stream with format := some f } :=
      congrArg (fun r ↦ r.1.stream) hr
    refine ⟨?_, f, ho, hs, negotiate_of_format (congrArg Stream.format hs)⟩
    rw [hr, ha]
  · obtain ⟨hf, hs⟩ := stream_negotiate_of_not_declines h hd
    have hformat : after.stream.format = none := (congrArg Stream.format hs).trans hf
    refine ⟨hf, fun _ ↦ ⟨hs, fun u ↦ ?_, fun later hi ↦ told_negotiate hformat hi⟩,
      fun hd' ↦ absurd hd' hd⟩
    refine accept_of_error after u ?_
    rw [Stream.accept, hformat]

/-- A consumer that declines WebVTT is taken to have accepted it when it is asked again. -/
theorem failed_negotiation_leaves_stream_unless_declined_webVtt :
    let l : Link Receiver (Recorded Stage) := ⟨.fresh, { consumer := { refusesCaps := true } }⟩
    let after := (l.negotiate .captionPairs).1
    (l.negotiate .captionPairs).2 = .ok false ∧ after.stream.format = some .webVtt ∧
      after.negotiate .captionPairs = (after, .ok true) := by
  intro l after
  have hfails : (l.negotiate .captionPairs).2 ≠ .ok true := by decide +kernel
  have hdeclines : l.Declines .captionPairs := ⟨rfl, by decide +kernel, .webVtt, rfl, rfl⟩
  obtain ⟨-, -, hdeclined⟩ := failed_negotiation_leaves_stream_unless_declined hfails
  obtain ⟨hanswer, f, hf, hs, hlater⟩ := hdeclined hdeclines
  obtain rfl : Format.webVtt = f := Except.ok.inj hf
  exact ⟨hanswer, congrArg Stream.format hs, hlater _⟩

end Link

end Line21
