import Line21.Proofs.Stream.Journal

/-!
# What journals tell

A willing consumer takes every unit, but may raise a signal while it holds one. The answer
overtakes what the interrupted call still has to deliver, and after it no caption waits. Main
statement: the journal of a run in which the stream does not start over enters the header and
each cue that the stream has numbered once, in the order of the numbers but for one case. The
second cue overtakes the first when the consumer asks for the end of the stream while it holds
the header, and a caption waits by then.
-/

namespace Line21

variable {δ σ : Type}

/-! ### Numbers -/

/-- Cues are numbered one after the other, when some are written before them. -/
def Cue.Numbered (before : Nat) (cues : List Cue) : Prop :=
  cues.map (·.number) = (List.range' (before + 1) cues.length).map Nat.cast

/-- No cues are numbered, whatever is written before them. -/
theorem Cue.numbered_nil (before : Nat) : Numbered before [] := rfl

/-- Cues that go on with the numbers of others are numbered with them. -/
theorem Cue.Numbered.append {before : Nat} {cues more : List Cue} (h : Numbered before cues)
    (hm : Numbered (before + cues.length) more) : Numbered before (cues ++ more) := by
  have hr : List.range' (before + 1) cues.length ++
      List.range' (before + cues.length + 1) more.length =
        List.range' (before + 1) (cues.length + more.length) := by
    rw [Nat.add_right_comm, List.range'_append_1]
  rw [Numbered, List.map_append, h, hm, ← List.map_append, hr, List.length_append]

namespace Stream

/-- A stream speaks a format: it has agreed on no other. -/
def Speaks (s : Stream δ) (f : Format) : Prop := ∀ g, s.format = some g → g = f

/-- A stream speaks the format that it has agreed on. -/
theorem speaks_of_format {s : Stream δ} {f : Format} (h : s.format = some f) : s.Speaks f := by
  intro g hg
  exact Option.some.inj (hg.symm.trans h)

/-- There is always a format that a stream speaks. -/
theorem speaks_getD (s : Stream δ) : s.Speaks (s.format.getD .plain) := by
  intro g hg
  rw [hg, Option.getD_some]

/-- A stream has written a number of cues since it started over. -/
def Counts (s : Stream δ) (before : Nat) : Prop := ∃ last, s.Tracks before last

/-- A fresh stream has written nothing. -/
theorem counts_fresh [CaptionDecoder δ] : (fresh : Stream δ).Counts 0 := ⟨none, tracks_fresh rfl⟩

private theorem Tracks.cue?_eq {s : Stream δ} {before : Nat} {last : Option Turn}
    (h : s.Tracks before last) (t : Turn) :
    s.cue? t = (last.bind (·.showing? t)).map (·.cue (before + 1)) := by
  cases hp : s.slot.held with
  | none =>
    rw [h.showing?_eq_none hp, cue?, hp]
    rfl
  | some p =>
    obtain ⟨f, -, rfl⟩ := h.eq_shown hp
    rw [cue?, hp, h.nextNumber, Option.bind_some, Option.bind_some, Turn.showing?, Option.map_map]
    rfl

/-- A turn writes its showing under the next number. -/
theorem Tracks.writes_eq {s : Stream δ} {before : Nat} {last : Option Turn}
    (h : s.Tracks before last) {f : Format} (hf : s.Speaks f) (t : Turn) :
    s.writes t =
      f.pieces (decide (0 < before))
        ((last.bind (·.showing? t)).toList.map (·.cue (before + 1))) := by
  rw [writes, h.cue?_eq, h.headerWritten]
  cases hp : s.slot.held with
  | none =>
    rw [h.showing?_eq_none hp]
    split
    · next hc => cases hc
    · exact (f.pieces_nil _).symm
  | some p =>
    obtain ⟨g, hg, rfl⟩ := h.eq_shown hp
    obtain rfl := hf g hg
    rw [hg]
    cases (some (Turn.shown g p.start p.text)).bind (·.showing? t) with
    | none => exact (g.pieces_nil _).symm
    | some showing => rfl

/-- The cue of a showing has the next number. -/
theorem numbered_showing (before : Nat) (o : Option Showing) :
    Cue.Numbered before (o.toList.map (·.cue (before + 1))) := by
  cases o <;> rfl

variable [CaptionDecoder δ]

/-- A stream goes on to speak its format after a unit. -/
theorem Speaks.accept {s s' : Stream δ} {f : Format} (h : s.Speaks f) {u : CaptionUnit}
    {us : List TextUnit} (ha : s.accept u = .ok (s', us)) : s'.Speaks f := by
  intro g hg
  exact h g ((format_accept ha).symm.trans hg)

/-- A stream goes on to speak its format after a signal. -/
theorem Speaks.raise {s : Stream δ} {f : Format} (h : s.Speaks f) (e : Signal) :
    (s.raise e).1.Speaks f := by
  intro g hg
  exact h g ((s.format_raise e).symm.trans hg)

/-- After an answer to a signal no caption waits. -/
theorem held_raise (s : Stream δ) (e : Signal) : (s.raise e).1.slot.held = none := by
  cases e with
  | flush => rfl
  | finish => exact congrArg Slot.held s.slot_drain

/-- An answer writes the cue of the caption that waits when the signal is the end of the stream,
and counts it. -/
theorem Counts.raise {s : Stream δ} {before : Nat} (h : s.Counts before) {f : Format}
    (hf : s.Speaks f) (e : Signal) :
    ∃ cues, s.writes e.turn = f.pieces (decide (0 < before)) cues ∧ Cue.Numbered before cues ∧
      cues.length = (if s.slot.held.isSome && e == .finish then 1 else 0) ∧
      (s.raise e).1.Counts (before + cues.length) := by
  obtain ⟨last, h⟩ := h
  refine ⟨_, h.writes_eq hf e.turn, numbered_showing _ _, ?_, ?_⟩
  · rw [List.length_map]
    cases e with
    | flush =>
      rw [Signal.turn, Turn.bind_showing?_of_stay fun _ ↦ rfl]
      cases s.slot.held <;> rfl
    | finish =>
      cases hp : s.slot.held with
      | none =>
        rw [h.showing?_eq_none hp]
        rfl
      | some p =>
        obtain ⟨g, -, rfl⟩ := h.eq_shown hp
        rfl
  · rw [List.length_map]
    cases e with
    | flush =>
      rw [Signal.turn, Turn.bind_showing?_of_stay fun _ ↦ rfl]
      exact ⟨some .flushed, flush_of_tracks h⟩
    | finish => exact ⟨some .finished, (drain_of_tracks h).2⟩

/-- A unit writes one cue at most, and counts it. -/
theorem Counts.accept {s s' : Stream δ} {before : Nat} (h : s.Counts before) {f : Format}
    (hf : s.Speaks f) {u : CaptionUnit} {us : List TextUnit}
    (ha : s.accept u = .ok (s', us)) :
    ∃ cues, s.due u = f.pieces (decide (0 < before)) cues ∧ Cue.Numbered before cues ∧
      cues.length ≤ 1 ∧ s'.Counts (before + cues.length) := by
  obtain ⟨last, h⟩ := h
  have hs := accept_of_tracks h ha
  rw [due]
  cases ht : s.turn? u with
  | none =>
    rw [ht] at hs
    exact ⟨[], (Format.pieces_nil f _).symm, Cue.numbered_nil _, Nat.zero_le _, last, hs.2⟩
  | some t =>
    rw [ht] at hs
    refine ⟨_, h.writes_eq hf t, numbered_showing _ _, ?_, some t, ?_⟩
    · rw [List.length_map]
      cases last.bind (·.showing? t) with
      | none => exact Nat.zero_le 1
      | some showing => exact Nat.le_refl 1
    · rw [List.length_map]
      exact hs.2

private theorem Counts.raise_of_held {s : Stream δ} {before : Nat} (h : s.Counts before)
    (hs : s.slot.held = none) (e : Signal) : (s.raise e).1.Counts before := by
  obtain ⟨cues, -, -, hl, hc⟩ := h.raise s.speaks_getD e
  rw [hs] at hl
  rw [hl] at hc
  exact hc

end Stream

/-! ### What a journal tells -/

/-- The consumer asks for the end of the stream while it holds the header, and a caption waits. -/
def Entry.overtaken : List Entry → Bool
  | [] => false
  | e :: _ => e.cue.isNone && e.waiting && e.answer == some .finish

/-- Cues when the second overtakes the first. -/
def swapFirst : List Cue → List Cue
  | c :: c' :: cues => c' :: c :: cues
  | cues => cues

/-- A journal tells cues in a format, when some are written before them: it enters the header and
each cue once, in the order of their numbers but for a second cue that overtakes the first. -/
structure Entry.Tells (f : Format) (before : Nat) (cues : List Cue) (j : List Entry) : Prop where
  numbered : Cue.Numbered before cues
  pieces : j.map (·.toPiece) =
    f.preface (decide (0 < before)) cues ++
      (if overtaken j then swapFirst cues else cues).map f.piece
  overtaken : overtaken j = true → before = 0 ∧ f = .webVtt ∧ 2 ≤ cues.length

namespace Entry

private theorem overtaken_of_cue {j : List Entry} {f : Format} {c : Cue} {ps : List Piece}
    (h : j.map (·.toPiece) = f.piece c :: ps) : overtaken j = false := by
  cases j with
  | nil => rfl
  | cons e j =>
    have he : e.toPiece = f.piece c := (List.cons.inj h).1
    rw [overtaken, he]
    rfl

private theorem overtaken_of_waiting {j : List Entry} (h : ∀ e ∈ j, e.waiting = false) :
    overtaken j = false := by
  cases j with
  | nil => rfl
  | cons e j => rw [overtaken, h e List.mem_cons_self, Bool.and_false, Bool.false_and]

namespace Tells

variable {f : Format} {before : Nat} {cues more : List Cue} {j j' : List Entry}

/-- No entries tell no cues. -/
theorem nil (f : Format) (before : Nat) : Tells f before [] [] := by
  refine ⟨Cue.numbered_nil before, ?_, fun h ↦ nomatch h⟩
  rw [Format.preface_nil]
  rfl

/-- Entries in the order of what they tell. -/
theorem of_pieces (hn : Cue.Numbered before cues) (ho : Entry.overtaken j = false)
    (hp : j.map (·.toPiece) = f.pieces (decide (0 < before)) cues) : Tells f before cues j where
  numbered := hn
  pieces := by
    rw [ho]
    exact hp
  overtaken h := by
    rw [ho] at h
    cases h

private theorem of_header {c : Cue} {header : TextUnit} (hh : f.header c.start = some header)
    (hn : Cue.Numbered 0 (c :: more)) {waiting : Bool} {e : Signal}
    (hl : more.length = if waiting && e == .finish then 1 else 0)
    (hj : j.map (·.toPiece) = f.pieces true more ++ [f.piece c]) :
    Tells f 0 (c :: more) (⟨⟨header, none⟩, waiting, some e⟩ :: j) := by
  have ho : Entry.overtaken (⟨⟨header, none⟩, waiting, some e⟩ :: j) =
      (waiting && e == .finish) := by
    rw [Entry.overtaken]
    cases e <;> rfl
  refine ⟨hn, ?_, ?_⟩
  · rw [List.map_cons, hj, ho]
    split at hl
    · next hi =>
      obtain ⟨c', rfl⟩ := List.length_eq_one_iff.mp hl
      rw [if_pos hi]
      exact congrArg (· ++ [f.piece c', f.piece c]) (Format.preface_cons hh [c']).symm
    · next hi =>
      obtain rfl := List.length_eq_zero_iff.mp hl
      rw [if_neg hi]
      exact congrArg (· ++ [f.piece c]) (Format.preface_cons hh []).symm
  · rw [ho]
    intro hi
    rw [if_pos hi] at hl
    refine ⟨rfl, ?_, Nat.le_of_eq (congrArg (· + 1) hl.symm)⟩
    cases f with
    | webVtt => rfl
    | subRip | plain => cases hh

/-- The cues are entered in their order, but for a second one that overtakes the first. -/
theorem filterMap_cue (h : Tells f before cues j) :
    j.filterMap (·.cue) = if Entry.overtaken j then swapFirst cues else cues := by
  have hp := congrArg (List.filterMap Piece.cue) h.pieces
  have hpre : (f.preface (decide (0 < before)) cues).filterMap Piece.cue = [] := by
    rw [Format.preface]
    generalize (if decide (0 < before) then none else cues.head?.bind fun c ↦ f.header c.start) = o
    cases o <;> rfl
  rw [List.filterMap_map, List.filterMap_append, hpre, List.nil_append, List.filterMap_map] at hp
  exact hp.trans List.filterMap_some

/-- The units that are entered are the header and then the cues in a format. -/
theorem map_unit (h : Tells f before cues j) :
    j.map (·.unit) =
      (f.preface (decide (0 < before)) cues).map Piece.unit ++
        (j.filterMap (·.cue)).map f.render := by
  have hp := congrArg (List.map Piece.unit) h.pieces
  rw [List.map_map, List.map_append, List.map_map] at hp
  rw [h.filterMap_cue]
  exact hp

/-- No cues are told by no entries, and by none besides. -/
theorem eq_nil_iff (h : Tells f before cues j) : cues = [] ↔ j = [] := by
  have hp := h.pieces
  constructor
  · rintro rfl
    have hs : (if Entry.overtaken j then swapFirst [] else []) = [] := ite_self _
    rw [hs, Format.preface_nil, List.map_nil, List.append_nil, List.map_eq_nil_iff] at hp
    exact hp
  · rintro rfl
    rw [Entry.overtaken, if_neg Bool.false_ne_true] at hp
    exact List.map_eq_nil_iff.mp (List.append_eq_nil_iff.mp hp.symm).2

private theorem overtaken_eq_false (h : Tells f before cues j) (hb : 0 < before) :
    Entry.overtaken j = false := by
  rw [← Bool.not_eq_true]
  intro ho
  exact Nat.ne_of_gt hb (h.overtaken ho).1

private theorem append (h : Tells f before cues j) (h' : Tells f (before + cues.length) more j') :
    Tells f before (cues ++ more) (j ++ j') := by
  cases cues with
  | nil =>
    obtain rfl := h.eq_nil_iff.mp rfl
    exact h'
  | cons c cues =>
    have hb : 0 < before + (c :: cues).length := by
      rw [List.length_cons]
      omega
    have hp := h'.pieces
    rw [h'.overtaken_eq_false hb, if_neg Bool.false_ne_true, decide_eq_true hb] at hp
    -- The first entry alone decides whether a cue is overtaken, and the first part has one.
    have ho : Entry.overtaken (j ++ j') = Entry.overtaken j := by
      cases j with
      | nil => exact absurd (h.eq_nil_iff.mpr rfl) (List.cons_ne_nil c cues)
      | cons e j => rfl
    refine ⟨h.numbered.append h'.numbered, ?_, ?_⟩
    · rw [List.map_append, h.pieces, hp, ho]
      split
      · next hj =>
        obtain ⟨-, -, hl⟩ := h.overtaken hj
        cases cues with
        | nil => exact absurd hl (Nat.not_succ_le_self 1)
        | cons c' cues =>
          simp only [swapFirst, List.cons_append, List.map_cons, List.map_append, Format.preface,
            List.head?_cons, if_true, Option.toList_none, List.map_nil, List.append_assoc,
            List.nil_append]
      · simp only [List.cons_append, List.map_cons, List.map_append, Format.preface,
          List.head?_cons, if_true, Option.toList_none, List.map_nil, List.append_assoc,
          List.nil_append]
    · intro hj
      rw [ho] at hj
      obtain ⟨hb, hf, hl⟩ := h.overtaken hj
      refine ⟨hb, hf, ?_⟩
      rw [List.length_append]
      omega

end Tells

end Entry

namespace Link

open Downstream (Willing)

variable [CaptionDecoder δ] [Downstream σ] {P : σ → Prop} {d : σ}

/-- While no caption waits, a delivery counts nothing. -/
theorem counts_deliver {s : Stream δ} {before : Nat} (h : s.Counts before)
    (hs : s.slot.held = none) (d : σ) (answer : Bool) (agenda : List Delivery) :
    (deliver s d answer agenda).1.stream.Counts before := by
  refine (stream_deliver (P := fun s ↦ s.slot.held = none ∧ s.Counts before) ?_ ⟨hs, h⟩ d answer
    agenda).2
  intro s e hs
  exact ⟨s.held_raise e, hs.2.raise_of_held hs.1 e⟩

/-- While no caption waits, a willing consumer enters everything in order. -/
theorem enter_of_held (hw : Willing P) {s : Stream δ} (hs : s.slot.held = none) (hd : P d)
    (parcels : List Parcel) :
    (enter s d parcels).map (·.toPiece) = parcels.filterMap Parcel.piece? ∧
      ∀ e ∈ enter s d parcels, e.waiting = false := by
  fun_induction enter s d parcels with
  | case1 s d => exact ⟨rfl, List.forall_mem_nil _⟩
  | case2 s d e rest ih => exact ih hs (hw.of_notify d e hd)
  | case3 s d p rest d' reason h =>
    obtain ⟨d'', answer, hp, -⟩ := hw.exists_push hd p.unit
    rw [h] at hp
    cases hp
  | case4 s d p rest d' h ih =>
    obtain ⟨d'', answer, hp, hd'⟩ := hw.exists_push hd p.unit
    rw [h] at hp
    cases hp
    obtain ⟨hi, hn⟩ := ih hs hd'
    refine ⟨congrArg (p :: ·) hi, List.forall_mem_cons.mpr ⟨?_, hn⟩⟩
    rw [hs]
    rfl
  | case5 s d p rest d' e h ih =>
    obtain ⟨d'', answer, hp, hd'⟩ := hw.exists_push hd p.unit
    rw [h] at hp
    cases hp
    obtain ⟨hi, hn⟩ := ih (s.held_raise e) hd'
    have hr : s.raised e = [.signal e] := by
      rw [Stream.raised, Stream.writes_of_held hs]
      rfl
    have hrest : (s.raised e ++ rest).filterMap Parcel.piece? = rest.filterMap Parcel.piece? := by
      rw [hr]
      rfl
    refine ⟨congrArg (p :: ·) (hi.trans hrest), List.forall_mem_cons.mpr ⟨?_, hn⟩⟩
    rw [hs]
    rfl

/-- A cue is entered before the one that waits, whatever the consumer raises while it holds it. -/
theorem enter_cue (hw : Willing P) (hd : P d) {s : Stream δ} {before : Nat} (hb : 0 < before)
    (h : s.Counts before) {f : Format} (hf : s.Speaks f) (p : Piece)
    (answer : Bool) :
    ∃ more, (enter s d [.piece p]).map (·.toPiece) = p :: more.map f.piece ∧
      Cue.Numbered before more ∧
      (deliver s d answer [.unit p.unit]).1.stream.Counts (before + more.length) := by
  obtain ⟨d', raised, hp, hd'⟩ := hw.exists_push hd p.unit
  rw [enter, deliver, hp]
  cases raised with
  | none =>
    dsimp only
    rw [enter, deliver]
    exact ⟨[], rfl, Cue.numbered_nil before, h⟩
  | some e =>
    obtain ⟨more, hm, hn, -, hc⟩ := h.raise hf e
    rw [decide_eq_true hb] at hm
    have hs : (s.raise e).1.slot.held = none := s.held_raise e
    refine ⟨more, ?_, hn, counts_deliver hc hs _ _ _⟩
    dsimp only
    rw [List.map_cons, (enter_of_held hw hs hd' _).1, List.append_nil, Stream.filterMap_raised, hm]
    rfl

/-- The header and the first cue are told with the cue that waits, which comes between the two
when the consumer asks for the end of the stream while it holds the header. -/
theorem tells_header (hw : Willing P) (hd : P d) {s : Stream δ} (h : s.Counts 1) {f : Format}
    (hf : s.Speaks f) {c : Cue} {header : TextUnit}
    (hh : f.header c.start = some header) (hc : Cue.Numbered 0 [c]) (answer : Bool) :
    ∃ cues, Entry.Tells f 0 cues (enter s d [.piece ⟨header, none⟩, .piece (f.piece c)]) ∧
      (deliver s d answer [.unit header, .unit (f.render c)]).1.stream.Counts cues.length := by
  obtain ⟨d', raised, hp, hd'⟩ := hw.exists_push hd header
  rw [enter, deliver, hp]
  cases raised with
  | none =>
    obtain ⟨more, hm, hn, hs⟩ := enter_cue hw hd' Nat.one_pos h hf (f.piece c) answer
    refine ⟨c :: more, .of_pieces (hc.append hn) (Bool.and_false _) ?_, ?_⟩
    · rw [List.map_cons, hm]
      exact (congrArg (· ++ _) (Format.preface_cons hh more)).symm
    · rw [List.length_cons, Nat.add_comm]
      exact hs
  | some e =>
    -- The answer goes ahead of the first cue, and after it nothing goes ahead of anything.
    obtain ⟨more, hm, hn, hl, hs⟩ := h.raise hf e
    have hheld : (s.raise e).1.slot.held = none := s.held_raise e
    have hj := (enter_of_held hw hheld hd' (s.raised e ++ [.piece (f.piece c)])).1
    rw [List.filterMap_append, Stream.filterMap_raised, hm] at hj
    refine ⟨c :: more, .of_header hh (hc.append hn) hl hj, ?_⟩
    rw [List.length_cons, Nat.add_comm]
    exact counts_deliver hs hheld _ _ _

/-- A cue is told with its header, if it has one, and with the cue that waits. -/
theorem tells_pieces (hw : Willing P) (hd : P d) {s : Stream δ} {before : Nat}
    (h : s.Counts (before + 1)) {f : Format} (hf : s.Speaks f) {c : Cue}
    (hc : Cue.Numbered before [c]) (answer : Bool) :
    ∃ cues, Entry.Tells f before cues
        (enter s d ((f.pieces (decide (0 < before)) [c]).map .piece)) ∧
      (deliver s d answer
        (((f.pieces (decide (0 < before)) [c]).map Piece.unit).map .unit)).1.stream.Counts
          (before + cues.length) := by
  have hpre : ∀ more, f.preface (decide (0 < before)) (c :: more) =
      (if decide (0 < before) then none else f.header c.start).toList.map (⟨·, none⟩) :=
    fun _ ↦ rfl
  cases ho : if decide (0 < before) then none else f.header c.start with
  | none =>
    rw [ho] at hpre
    have hp : f.pieces (decide (0 < before)) [c] = [f.piece c] := by
      rw [Format.pieces, hpre]
      rfl
    obtain ⟨more, hm, hn, hs⟩ := enter_cue hw hd (Nat.succ_pos before) h hf (f.piece c) answer
    rw [hp]
    refine ⟨c :: more, .of_pieces (hc.append hn) (Entry.overtaken_of_cue hm) ?_, ?_⟩
    · exact hm.trans (congrArg (· ++ (c :: more).map f.piece) (hpre more)).symm
    · rw [List.length_cons, Nat.add_comm more.length, ← Nat.add_assoc]
      exact hs
  | some header =>
    split at ho
    · cases ho
    · next hb =>
      obtain rfl : before = 0 := by simpa using hb
      have hp : f.pieces (decide (0 < 0)) [c] = [⟨header, none⟩, f.piece c] := by
        rw [Format.pieces, hpre, if_neg hb, ho]
        rfl
      obtain ⟨cues, ht, hs⟩ := tells_header hw hd h hf ho hc answer
      rw [hp]
      refine ⟨cues, ht, ?_⟩
      rw [Nat.zero_add]
      exact hs

/-! ### Calls and runs -/

variable {l : Link δ σ} {before : Nat} {f : Format}

/-- A format that is agreed upon stays so until the stream starts over. -/
theorem format_call {c : Call} (hc : c.restarts = false) {g : Format}
    (hg : l.stream.format = some g) : (l.call c).1.stream.format = some g := by
  cases c with
  | unit u => exact (l.format_accept u).trans hg
  | caps c =>
    rcases l.stream_negotiate c with hs | ⟨hn, -⟩
    · exact (congrArg Stream.format hs).trans hg
    · rw [hg] at hn
      cases hn
  | signal e => exact (l.format_signal e).trans hg
  | transition t =>
    rw [Call.restarts] at hc
    rw [call, transit, hc]
    exact hg

/-- A format that is agreed upon stays so over a run in which the stream does not start over. -/
theorem format_run {calls : List Call} (hc : ∀ c ∈ calls, c.restarts = false) {g : Format}
    (hg : l.stream.format = some g) : (l.run calls).stream.format = some g := by
  induction calls generalizing l with
  | nil => exact hg
  | cons c calls ih =>
    obtain ⟨hc, hcs⟩ := List.forall_mem_cons.mp hc
    exact ih hcs (format_call hc hg)

/-- A run that ends without a format began without one. -/
theorem format_eq_none_of_run {calls : List Call} (hc : ∀ c ∈ calls, c.restarts = false)
    (hf : (l.run calls).stream.format = none) : l.stream.format = none := by
  cases hg : l.stream.format with
  | none => rfl
  | some g =>
    rw [format_run hc hg] at hf
    cases hf

/-- A stream speaks at the beginning of a run what it speaks at its end. -/
theorem speaks_of_run {calls : List Call} (hc : ∀ c ∈ calls, c.restarts = false)
    (hf : (l.run calls).stream.Speaks f) : l.stream.Speaks f := by
  intro g hg
  exact hf g (format_run hc hg)

private theorem entries_of_format (hf : l.stream.format = none) (c : Call) : l.entries c = [] := by
  cases c with
  | unit u => simp only [entries, Stream.accept, hf]
  | signal e =>
    rw [entries, Stream.raised_of_format hf, enter, enter]
  | caps c => rfl
  | transition t => rfl

/-- A unit enters the cues that are told of it, and the stream counts them. -/
theorem tells_accept (hw : Willing P) (hp : P l.downstream) (h : l.stream.Counts before)
    (hf : l.stream.Speaks f) (u : CaptionUnit) :
    ∃ cues, Entry.Tells f before cues (l.entries (.unit u)) ∧
      (l.accept u).1.stream.Counts (before + cues.length) := by
  cases ha : l.stream.accept u with
  | error e =>
    rw [entries, ha, accept_of_error l u ha]
    exact ⟨[], .nil f before, h⟩
  | ok r =>
    obtain ⟨s, us⟩ := r
    obtain ⟨cues, hd, hn, hl, hs⟩ := h.accept hf ha
    have hfs : s.Speaks f := hf.accept ha
    simp only [entries, accept, ha, Stream.accept_eq ha, hd]
    cases cues with
    | nil =>
      rw [Format.pieces_nil, List.map_nil, List.map_nil, List.map_nil, enter, deliver]
      exact ⟨[], .nil f before, hs⟩
    | cons c cues =>
      obtain rfl : cues = [] := by
        rw [List.length_cons] at hl
        exact List.length_eq_zero_iff.mp (by omega)
      exact tells_pieces hw hp hs hfs hn true

/-- A signal enters the cue that waits, if it is the end of the stream. -/
theorem tells_signal (hw : Willing P) (hp : P l.downstream) (h : l.stream.Counts before)
    (hf : l.stream.Speaks f) (e : Signal) :
    ∃ cues, Entry.Tells f before cues (l.entries (.signal e)) ∧
      (l.signal e).1.stream.Counts (before + cues.length) := by
  obtain ⟨cues, hm, hn, -, hs⟩ := h.raise hf e
  have hheld : (l.stream.raise e).1.slot.held = none := l.stream.held_raise e
  obtain ⟨hj, hi⟩ := enter_of_held hw hheld hp (l.stream.raised e)
  rw [Stream.filterMap_raised, hm] at hj
  exact ⟨cues, .of_pieces hn (Entry.overtaken_of_waiting hi) hj, counts_deliver hs hheld _ _ _⟩

/-- A call that does not make the stream start over enters the cues that are told of it. -/
theorem tells_call (hw : Willing P) (hp : P l.downstream) (h : l.stream.Counts before)
    (hf : l.stream.Speaks f) {c : Call} (hc : c.restarts = false) :
    ∃ cues, Entry.Tells f before cues (l.entries c) ∧
      (l.call c).1.stream.Counts (before + cues.length) := by
  cases c with
  | unit u => exact tells_accept hw hp h hf u
  | signal e => exact tells_signal hw hp h hf e
  | caps c =>
    obtain ⟨last, h⟩ := h
    exact ⟨[], .nil f before, last, tracks_negotiate h c⟩
  | transition t =>
    rw [Call.restarts] at hc
    rw [call, transit, hc]
    exact ⟨[], .nil f before, h⟩

/-- A run in which the stream does not start over enters the cues that are told of it. -/
theorem tells_run (hw : Willing P) (hp : P l.downstream) (h : l.stream.Counts before)
    {calls : List Call} (hc : ∀ c ∈ calls, c.restarts = false)
    (hf : (l.run calls).stream.Speaks f) :
    ∃ cues, Entry.Tells f before cues (l.journal calls) ∧
      (l.run calls).stream.Counts (before + cues.length) := by
  induction calls generalizing l before with
  | nil => exact ⟨[], .nil f before, h⟩
  | cons c calls ih =>
    have hg : l.stream.Speaks f := speaks_of_run hc hf
    obtain ⟨hc, hcs⟩ := List.forall_mem_cons.mp hc
    obtain ⟨cues, ht, hs⟩ := tells_call hw hp h hg hc
    obtain ⟨more, hm, hs⟩ := ih (closed_call hw.toClosed hp c) hs hcs hf
    refine ⟨cues ++ more, ht.append hm, ?_⟩
    rw [List.length_append, ← Nat.add_assoc]
    exact hs

/-- Before a format is agreed upon, a run enters nothing. -/
theorem journal_of_format {calls : List Call} (hc : ∀ c ∈ calls, c.restarts = false)
    (hf : (l.run calls).stream.format = none) : l.journal calls = [] := by
  induction calls generalizing l with
  | nil => rfl
  | cons c calls ih =>
    have hl : l.stream.format = none := format_eq_none_of_run hc hf
    rw [journal, entries_of_format hl, List.nil_append]
    exact ih (List.forall_mem_cons.mp hc).2 hf

end Link

end Line21
