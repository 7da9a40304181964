import Line21.Proofs.Stream.Telling

/-!
# What a consumer is handed

A consumer may fail to take a unit, and may raise signals while it holds one. What it is handed is
listed in its order, whether or not it is taken: each unit with the cue that it shows. Main
statement: whatever the consumer does, the pieces that it is handed while the stream does not start
over are one document, the header first, if the format has one, and then cues in this format.
-/

namespace Line21

open Downstream (push notify)

variable {δ σ : Type}

namespace Link

variable [CaptionDecoder δ] [Downstream σ]

/-- The pieces of a delivery that a consumer is handed. One that it fails to take is the last. -/
def hand (s : Stream δ) (d : σ) : List Parcel → List Piece
  | [] => []
  | .signal e :: rest => hand s (notify d e).1 rest
  | .piece p :: rest =>
    match push d p.unit with
    | (_, .error _) => [p]
    | (d, .ok none) => p :: hand s d rest
    | (d, .ok (some e)) => p :: hand (s.raise e).1 d (s.raised e ++ rest)
termination_by parcels => agendaMeasure s (parcels.map Parcel.delivery)
decreasing_by
  · simp [agendaMeasure, Parcel.delivery, Delivery.weight]
  · simp [agendaMeasure, Parcel.delivery, Delivery.weight]
  · rw [List.map_append, ← Stream.raise_eq]
    exact agendaMeasure_raise s e p.unit _

/-- The pieces that a consumer is handed at a call. -/
def handed (l : Link δ σ) : Call → List Piece
  | .unit u =>
    match l.stream.accept u with
    | .error _ => []
    | .ok (s, _) => hand s l.downstream ((l.stream.due u).map .piece)
  | .signal e => hand (l.stream.raise e).1 l.downstream (l.stream.raised e)
  | .caps _ | .transition _ => []

/-- The pieces that a consumer is handed over a run of calls. -/
def handedOver (l : Link δ σ) : List Call → List Piece
  | [] => []
  | c :: calls => l.handed c ++ (l.call c).1.handedOver calls

end Link

/-! ### Pieces of one document -/

/-- Pieces that go on with a document in a format, which may be opened by them: they are the header,
if there is one, and then cues. -/
inductive Format.Continues (f : Format) : (opened after : Bool) → List Piece → Prop
  | unopened : Continues f false false []
  | opening (start : Int) (cues : List Cue) :
    Continues f false true ((f.header start).toList.map (⟨·, none⟩) ++ cues.map f.piece)
  | following (cues : List Cue) : Continues f true true (cues.map f.piece)

namespace Format.Continues

variable {f : Format} {opened after : Bool} {ps : List Piece}

private theorem refl (f : Format) (opened : Bool) : f.Continues opened opened [] := by
  cases opened with
  | false => exact .unopened
  | true => exact .following []

private theorem append (h : f.Continues opened after ps) {last : Bool} {more : List Piece}
    (hm : f.Continues after last more) : f.Continues opened last (ps ++ more) := by
  cases h with
  | unopened => exact hm
  | opening start cues =>
    cases hm with
    | following more =>
      rw [List.append_assoc, ← List.map_append]
      exact .opening start (cues ++ more)
  | following cues =>
    cases hm with
    | following more =>
      rw [← List.map_append]
      exact .following (cues ++ more)

private theorem filterMap_cue (cues : List Cue) :
    (cues.map f.piece).filterMap Piece.cue = cues := by
  rw [List.filterMap_map]
  exact List.filterMap_some

private theorem filterMap_cue_header (o : Option TextUnit) :
    (o.toList.map fun u ↦ (⟨u, none⟩ : Piece)).filterMap Piece.cue = [] := by
  cases o <;> rfl

/-- The units of a new document are the header, if the format has one, and then each cue as the
format has it, with the start and the duration of the cue. -/
theorem units (h : f.Continues false after ps) :
    let cues := ps.filterMap Piece.cue
    (cues = [] ∧ ps.map Piece.unit = []) ∨
      ∃ start, ps.map Piece.unit =
        (f.header start).toList ++ cues.map fun c ↦ ⟨f.cueText c, c.start, some c.duration⟩ := by
  cases h with
  | unopened => exact .inl ⟨rfl, rfl⟩
  | opening start cues =>
    refine .inr ⟨start, ?_⟩
    have hheader : ((f.header start).toList.map fun u ↦ (⟨u, none⟩ : Piece)).map Piece.unit =
        (f.header start).toList := by
      rw [List.map_map]
      exact List.map_id _
    rw [List.filterMap_append, filterMap_cue, filterMap_cue_header, List.map_append, hheader,
      List.map_map]
    rfl

end Format.Continues

namespace Link

variable [CaptionDecoder δ] [Downstream σ] {s : Stream δ} {f : Format} {before : Nat}

private theorem cons_eq_cues {o : Option Piece} {cues : List Cue} {p : Piece} {ps : List Piece}
    (h : p :: ps = o.toList ++ cues.map f.piece) :
    (∃ rest : List Cue, ps = rest.map f.piece) ∧
      ∀ shown : List Cue, ∃ more : List Cue,
        p :: shown.map f.piece = o.toList ++ more.map f.piece := by
  cases o with
  | none =>
    obtain ⟨c, cues, rfl, rfl, rfl⟩ := List.map_eq_cons_iff.mp h.symm
    exact ⟨⟨cues, rfl⟩, fun shown ↦ ⟨c :: shown, rfl⟩⟩
  | some q =>
    obtain ⟨rfl, rfl⟩ := List.cons.inj h
    exact ⟨⟨cues, rfl⟩, fun shown ↦ ⟨shown, rfl⟩⟩

private theorem hand_eq_cues (hb : 0 < before) (h : s.Counts before) (hf : s.Speaks f) (d : σ)
    {parcels : List Parcel} {o : Option Piece} {cues : List Cue}
    (hp : parcels.filterMap Parcel.piece? = o.toList ++ cues.map f.piece) :
    ∃ shown : List Cue, hand s d parcels = o.toList ++ shown.map f.piece := by
  fun_induction hand s d parcels generalizing before o cues with
  | case1 s d =>
    obtain ⟨ho, -⟩ := List.append_eq_nil_iff.mp hp.symm
    exact ⟨[], by rw [ho]; rfl⟩
  | case2 s d e rest ih => exact ih hb h hf hp
  | case3 s d p rest d' reason hpush => exact (cons_eq_cues hp).2 []
  | case4 s d p rest d' hpush ih =>
    obtain ⟨⟨left, hrest⟩, hcons⟩ := cons_eq_cues hp
    obtain ⟨shown, hs⟩ := ih (o := none) hb h hf hrest
    rw [hs]
    exact hcons shown
  | case5 s d p rest d' e hpush ih =>
    obtain ⟨⟨left, hrest⟩, hcons⟩ := cons_eq_cues hp
    obtain ⟨new, hw, -, -, hc⟩ := h.raise hf e
    -- The answer goes ahead of the rest, and cues are counted, so that it opens no document.
    have hn : s.writes e.turn = new.map f.piece := by
      rw [hw, decide_eq_true hb]
      rfl
    have hr : (s.raised e ++ rest).filterMap Parcel.piece? = (new ++ left).map f.piece := by
      rw [List.filterMap_append, Stream.filterMap_raised, hn, hrest, List.map_append]
    obtain ⟨shown, hs⟩ := ih (o := none) (Nat.add_pos_left hb _) hc (hf.raise e) hr
    rw [hs]
    exact hcons shown

private theorem deliver_of_no_pieces (s : Stream δ) (d : σ) (answer : Bool) {parcels : List Parcel}
    (hp : parcels.filterMap Parcel.piece? = []) :
    hand s d parcels = [] ∧
      (deliver s d answer (parcels.map Parcel.delivery)).1.stream = s := by
  induction parcels generalizing d answer with
  | nil =>
    rw [hand, List.map_nil, deliver]
    exact ⟨rfl, rfl⟩
  | cons x rest ih =>
    cases x with
    | signal e =>
      rw [hand, List.map_cons, Parcel.delivery, deliver]
      exact ih _ _ hp
    | piece p => cases hp

private theorem counts_deliver_le (h : s.Counts before) (d : σ) (answer : Bool)
    (agenda : List Delivery) :
    ∃ after, before ≤ after ∧ (deliver s d answer agenda).1.stream.Counts after := by
  refine stream_deliver (P := fun s ↦ ∃ after, before ≤ after ∧ s.Counts after) ?_
    ⟨before, Nat.le_refl _, h⟩ d answer agenda
  rintro s e ⟨after, hle, hc⟩
  obtain ⟨cues, -, -, -, hr⟩ := hc.raise s.speaks_getD e
  exact ⟨_, Nat.le_add_right_of_le hle, hr⟩

/-- A delivery of what a turn writes goes on with the document, whatever the consumer raises. -/
theorem continues_deliver {cues : List Cue} (h : s.Counts (before + cues.length))
    (hf : s.Speaks f) (d : σ) (answer : Bool) {parcels : List Parcel}
    (hp : parcels.filterMap Parcel.piece? = f.pieces (decide (0 < before)) cues) :
    ∃ after, (deliver s d answer (parcels.map Parcel.delivery)).1.stream.Counts after ∧
      f.Continues (decide (0 < before)) (decide (0 < after)) (hand s d parcels) := by
  rcases Nat.eq_zero_or_pos (before + cues.length) with hz | hpos
  · obtain ⟨rfl, hl⟩ := Nat.add_eq_zero_iff.mp hz
    obtain rfl := List.length_eq_zero_iff.mp hl
    obtain ⟨hh, hs⟩ := deliver_of_no_pieces s d answer (hp.trans (f.pieces_nil _))
    rw [hh, hs]
    exact ⟨0, h, .unopened⟩
  · obtain ⟨after, hle, hc⟩ := counts_deliver_le h d answer (parcels.map Parcel.delivery)
    refine ⟨after, hc, ?_⟩
    rw [decide_eq_true (Nat.lt_of_lt_of_le hpos hle)]
    rcases Nat.eq_zero_or_pos before with rfl | hb
    · cases cues with
      | nil => exact absurd hpos (Nat.lt_irrefl 0)
      | cons c cues =>
        have hpre : f.pieces (decide (0 < 0)) (c :: cues) =
            ((f.header c.start).map (⟨·, none⟩)).toList ++ (c :: cues).map f.piece := by
          rw [Format.pieces, Format.preface, Option.toList_map]
          rfl
        obtain ⟨shown, hs⟩ := hand_eq_cues hpos h hf d (hp.trans hpre)
        rw [hs, Option.toList_map]
        exact .opening c.start shown
    · rw [decide_eq_true hb] at hp ⊢
      obtain ⟨shown, hs⟩ := hand_eq_cues (o := none) hpos h hf d hp
      rw [hs]
      exact .following shown

/-- A call at which the stream does not start over goes on with the document. -/
theorem continues_call {l : Link δ σ} (h : l.stream.Counts before) (hf : l.stream.Speaks f)
    {c : Call} (hc : c.restarts = false) :
    ∃ after, (l.call c).1.stream.Counts after ∧
      f.Continues (decide (0 < before)) (decide (0 < after)) (l.handed c) := by
  cases c with
  | unit u =>
    cases ha : l.stream.accept u with
    | error e =>
      rw [call, accept_of_error l u ha, handed, ha]
      exact ⟨before, h, .refl f _⟩
    | ok r =>
      obtain ⟨s, us⟩ := r
      obtain ⟨cues, hd, -, -, hs⟩ := h.accept hf ha
      have hp := (Parcel.filterMap_piece? (l.stream.due u)).trans hd
      obtain ⟨after, hr⟩ := continues_deliver hs (hf.accept ha) l.downstream true hp
      rw [Parcel.map_delivery_piece, ← Stream.accept_eq ha] at hr
      simp only [call, accept, handed, ha]
      exact ⟨after, hr⟩
  | signal e =>
    obtain ⟨cues, hw, -, -, hs⟩ := h.raise hf e
    have hp := (l.stream.filterMap_raised e).trans hw
    obtain ⟨after, hr⟩ := continues_deliver hs (hf.raise e) l.downstream true hp
    rw [← Stream.raise_eq] at hr
    exact ⟨after, hr⟩
  | caps input =>
    obtain ⟨last, h⟩ := h
    exact ⟨before, ⟨last, tracks_negotiate h input⟩, .refl f _⟩
  | transition t =>
    rw [Call.restarts] at hc
    rw [call, transit, hc]
    exact ⟨before, h, .refl f _⟩

/-- A run in which the stream does not start over goes on with the document. -/
theorem continues_run {l : Link δ σ} (h : l.stream.Counts before) {calls : List Call}
    (hc : ∀ c ∈ calls, c.restarts = false) (hf : (l.run calls).stream.Speaks f) :
    ∃ after, f.Continues (decide (0 < before)) after (l.handedOver calls) := by
  induction calls generalizing l before with
  | nil => exact ⟨_, .refl f _⟩
  | cons c calls ih =>
    have hl : l.stream.Speaks f := speaks_of_run hc hf
    obtain ⟨hc, hcs⟩ := List.forall_mem_cons.mp hc
    obtain ⟨between, hs, hcall⟩ := continues_call h hl hc
    obtain ⟨after, hrun⟩ := ih hs hcs hf
    exact ⟨after, hcall.append hrun⟩

private theorem handed_of_format {l : Link δ σ} (hf : l.stream.format = none) (c : Call) :
    l.handed c = [] := by
  cases c with
  | unit u => simp only [handed, Stream.accept, hf]
  | signal e =>
    rw [handed, Stream.raised_of_format hf, hand, hand]
  | caps c => rfl
  | transition t => rfl

/-- Before a format is agreed upon, nothing is handed over. -/
theorem handedOver_of_format {l : Link δ σ} {calls : List Call}
    (hc : ∀ c ∈ calls, c.restarts = false) (hf : (l.run calls).stream.format = none) :
    l.handedOver calls = [] := by
  induction calls generalizing l with
  | nil => rfl
  | cons c calls ih =>
    have hl : l.stream.format = none := format_eq_none_of_run hc hf
    rw [handedOver, handed_of_format hl, List.nil_append]
    exact ih (List.forall_mem_cons.mp hc).2 hf

end Link

end Line21
