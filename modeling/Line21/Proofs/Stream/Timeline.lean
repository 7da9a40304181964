import Line21.Format.Basic

/-!
# Timelines

What a stream writes depends only on its turns: captions that come up, and whatever ends
the one that is up. A timeline is the list of the turns in order. The caption of a turn
stays up to the turn after it, so the showings of a timeline are read off its neighbouring
turns, and nothing else about the past counts. A restart begins a new life, whose cues are
numbered anew and in formats with a header are opened by it.
-/

namespace Line21

/-- Something that happens to the caption that is up, and may bring up the next. -/
inductive Turn
  /-- A caption comes up and can be read. -/
  | shown (format : Format) (time : Int) (text : String)
  /-- The screen is cleared. -/
  | cleared (time : Int)
  /-- The stream comes to its end. -/
  | finished
  /-- What waits is forgotten. -/
  | flushed
  /-- The stream starts over. -/
  | restarted
  deriving DecidableEq, Repr

/-- A caption with its time on the screen, before it has a number. -/
structure Showing where
  format : Format
  start : Int
  duration : Int
  text : String
  deriving DecidableEq, Repr

namespace Showing

/-- The cue of a showing under a number. -/
def cue (s : Showing) (number : Nat) : Cue :=
  { start := s.start, duration := s.duration, text := s.text, number }

/-- What came up, without the time for which it stayed. -/
def caption (s : Showing) : Format × Int × String := (s.format, s.start, s.text)

/-- A showing as it is written when some cues of its life are written already. The first one
brings the header with it. -/
def units (s : Showing) (before : Nat) : List TextUnit :=
  (if before = 0 then s.format.header s.start else none).toList ++
    [s.format.render (s.cue (before + 1))]

end Showing

namespace Turn

/-- The caption that comes up in a turn. -/
def caption? : Turn → Option (Format × Int × String)
  | shown format time text => some (format, time, text)
  | _ => none

/-- How long a caption that came up at a time has stayed when a turn follows; nothing if the
turn makes it forgotten. -/
def stay (start : Int) : Turn → Option Int
  | shown _ time _ => some (max 0 (time - start))
  | cleared time => some (max 0 (time - start))
  | finished => some 0
  | flushed => none
  | restarted => none

/-- The showing that two neighbouring turns make. -/
def showing? (t next : Turn) : Option Showing :=
  match t with
  | shown format start text =>
    (next.stay start).map fun duration ↦ { format, start, duration, text }
  | _ => none

/-- A turn that makes what is up forgotten completes no showing. -/
theorem bind_showing?_of_stay {next : Turn} (h : ∀ start, next.stay start = none)
    (last : Option Turn) : last.bind (·.showing? next) = none := by
  cases last with
  | none => rfl
  | some t =>
    cases t with
    | shown format start text => rw [Option.bind_some, showing?, h, Option.map_none]
    | cleared _ | finished | flushed | restarted => rfl

end Turn

namespace Timeline

/-- The showings of a timeline: one for each caption that is not forgotten or still up. -/
def showings (ts : List Turn) : List Showing :=
  (ts.zip ts.tail).filterMap fun (t, next) ↦ t.showing? next

/-- What is written of showings that follow a number of others in one life. -/
def written (before : Nat) (ss : List Showing) : List TextUnit :=
  (ss.zipIdx before).flatMap fun (s, i) ↦ s.units i

/-- The lives of a timeline: what stands between restarts. -/
def lives (ts : List Turn) : List (List Turn) := ts.splitOnP (· == .restarted)

/-- What a stream with a timeline writes. -/
def units (ts : List Turn) : List TextUnit :=
  (lives ts).flatMap fun life ↦ written 0 (showings life)

/-- Two neighbours make the first showing, if any. -/
theorem showings_cons_cons (t next : Turn) (ts : List Turn) :
    showings (t :: next :: ts) = (t.showing? next).toList ++ showings (next :: ts) := by
  simp only [showings, List.tail_cons, List.zip_cons_cons, List.filterMap_cons]
  cases t.showing? next <;> rfl

/-- A caption that stays up to the turn after it is the first showing. -/
theorem showings_shown_cons {next : Turn} {start duration : Int}
    (h : next.stay start = some duration) (format : Format) (text : String) (ts : List Turn) :
    showings (.shown format start text :: next :: ts) =
      { format, start, duration, text } :: showings (next :: ts) := by
  rw [showings_cons_cons, Turn.showing?, h]
  rfl

/-- A turn that brings up no caption is no start of a showing. -/
theorem showings_cons_of_ne_shown {t : Turn} (h : ∀ next, t.showing? next = none)
    (ts : List Turn) : showings (t :: ts) = showings ts := by
  cases ts with
  | nil => rfl
  | cons next ts => rw [showings_cons_cons, h next, Option.toList_none, List.nil_append]

/-- Showings are written one after the other. -/
theorem written_append (before : Nat) (ss ss' : List Showing) :
    written before (ss ++ ss') = written before ss ++ written (before + ss.length) ss' := by
  simp only [written, List.zipIdx_append, List.flatMap_append]

/-- A restart begins a life of its own. -/
theorem lives_restarted (ts : List Turn) : lives (.restarted :: ts) = [] :: lives ts := by
  simp [lives, List.splitOnP_cons_eq_if_modifyHead]

/-- Any other turn belongs to the life of the turns after it. -/
theorem lives_cons {t : Turn} (ht : t ≠ .restarted) (ts : List Turn) :
    lives (t :: ts) = (lives ts).modifyHead (t :: ·) := by
  simp [lives, List.splitOnP_cons_eq_if_modifyHead, ht]

/-- Without a restart there is a single life. -/
theorem lives_of_not_mem {ts : List Turn} (h : .restarted ∉ ts) : lives ts = [ts] := by
  induction ts with
  | nil => rfl
  | cons t ts ih =>
    have ht : t ≠ .restarted := fun he ↦ h (he ▸ List.mem_cons_self)
    rw [lives_cons ht, ih fun hm ↦ h (List.mem_cons_of_mem t hm), List.modifyHead_cons]

/-- A restart ahead of everything else writes nothing. -/
theorem units_restarted (ts : List Turn) : units (.restarted :: ts) = units ts := by
  rw [units, units, lives_restarted]
  rfl

/-- There is always a life, if only an empty one. -/
theorem exists_lives_eq_cons (ts : List Turn) : ∃ life others, lives ts = life :: others :=
  List.exists_cons_of_ne_nil (List.splitOnP_ne_nil _ _)

/-! ### Order -/

private theorem caption_of_showing? {t next : Turn} {s : Showing} (h : t.showing? next = some s) :
    t.caption? = some s.caption := by
  cases t with
  | shown format start text =>
    obtain ⟨duration, -, rfl⟩ := Option.map_eq_some_iff.mp h
    rfl
  | cleared _ | finished | flushed | restarted => cases h

/-- The captions of showings are captions that came up, in the order in which they did, and
none of them twice. -/
theorem captions_showings_sublist (ts : List Turn) :
    ((showings ts).map Showing.caption).Sublist (ts.filterMap Turn.caption?) := by
  induction ts with
  | nil => exact List.Sublist.slnil
  | cons t ts ih =>
    cases ts with
    | nil => exact List.nil_sublist _
    | cons next ts =>
      rw [showings_cons_cons]
      cases h : t.showing? next with
      | none => exact ih.trans ((List.sublist_cons_self t _).filterMap _)
      | some s =>
        rw [List.filterMap_cons, caption_of_showing? h]
        exact ih.cons_cons _

private theorem flatten_lives_sublist (ts : List Turn) : (lives ts).flatten.Sublist ts := by
  induction ts with
  | nil => exact List.Sublist.slnil
  | cons t ts ih =>
    by_cases ht : t = .restarted
    · rw [ht, lives_restarted]
      exact ih.cons _
    · obtain ⟨life, others, hl⟩ := exists_lives_eq_cons ts
      rw [lives_cons ht, hl, List.modifyHead_cons, List.flatten_cons, List.cons_append]
      rw [hl, List.flatten_cons] at ih
      exact ih.cons_cons _

/-- What is written over all lives keeps the order in which the captions came up. -/
theorem captions_lives_sublist (ts : List Turn) :
    (((lives ts).flatMap showings).map Showing.caption).Sublist (ts.filterMap Turn.caption?) := by
  refine List.Sublist.trans ?_ ((flatten_lives_sublist ts).filterMap _)
  generalize lives ts = ls
  induction ls with
  | nil => exact List.Sublist.slnil
  | cons life ls ih =>
    rw [List.flatMap_cons, List.map_append, List.flatten_cons, List.filterMap_append]
    exact (captions_showings_sublist life).append ih

/-! ### Writing turn by turn -/

/-- What is written of the turns that follow, when the last turn and the number of the cues
written in this life are known. -/
def writtenFrom (before : Nat) (last : Option Turn) : List Turn → List TextUnit
  | [] => []
  | t :: ts =>
    let done := (last.bind (·.showing? t)).toList
    written before done ++
      writtenFrom (if t = .restarted then 0 else before + done.length) (some t) ts

private theorem writtenFrom_eq {ts life : List Turn} {others : List (List Turn)}
    (h : lives ts = life :: others) (before : Nat) (last : Option Turn) :
    writtenFrom before last ts =
      written before (showings (last.toList ++ life)) ++
        others.flatMap fun life ↦ written 0 (showings life) := by
  induction ts generalizing before last life others with
  | nil =>
    obtain ⟨rfl, rfl⟩ := List.cons.inj h
    cases last <;> rfl
  | cons t ts ih =>
    obtain ⟨life', others', hl⟩ := exists_lives_eq_cons ts
    rw [writtenFrom, ih hl]
    by_cases ht : t = .restarted
    · subst ht
      rw [lives_restarted, hl] at h
      obtain ⟨rfl, rfl⟩ := List.cons.inj h
      have hs : showings (Turn.restarted :: life') = showings life' :=
        showings_cons_of_ne_shown (fun _ ↦ rfl) life'
      rw [if_pos rfl, Option.toList_some, List.singleton_append, hs, List.flatMap_cons,
        Turn.bind_showing?_of_stay fun _ ↦ rfl]
      cases last <;> rfl
    · rw [lives_cons ht, hl, List.modifyHead_cons] at h
      obtain ⟨rfl, rfl⟩ := List.cons.inj h
      rw [if_neg ht, Option.toList_some, List.singleton_append, ← List.append_assoc]
      cases last with
      | none => rfl
      | some last =>
        rw [Option.bind_some, Option.toList_some, List.singleton_append, showings_cons_cons,
          written_append]

/-- A timeline is written turn by turn from nothing. -/
theorem writtenFrom_zero (ts : List Turn) : writtenFrom 0 none ts = units ts := by
  obtain ⟨life, others, hl⟩ := exists_lives_eq_cons ts
  rw [writtenFrom_eq hl, units, hl, List.flatMap_cons, Option.toList_none, List.nil_append]

end Timeline

end Line21
