import Line21.Proofs.Stream.Course

/-!
# Captions one at a time

When the times of the units never decrease, a caption leaves the screen no later than the next
one comes up: it stays to the turn that ends it, the turns have the times of the units that
bring them about, and whatever makes a caption forgotten writes nothing of it. The end of a stream
takes no time, wherever in a run it comes.
-/

namespace Line21

/-! ### Times -/

/-- The time of a unit that is given to a stream. -/
def Call.time? : Call → Option Int
  | .unit u => u.time
  | _ => none

/-- The time of a turn that a unit brings about. -/
def Turn.time? : Turn → Option Int
  | shown _ time _ | cleared time => some time
  | _ => none

/-- The start and the duration of a unit that is shown. A header is not. -/
def TextUnit.timing? (u : TextUnit) : Option (Int × Int) := u.duration.map (u.start, ·)

/-- The start and the duration of a showing. -/
def Showing.timing (s : Showing) : Int × Int := (s.start, s.duration)

section Turns

variable {δ σ : Type} [CaptionDecoder δ] [Downstream σ]

private theorem Stream.time?_turn? {s : Stream δ} {u : CaptionUnit} {t : Turn}
    (h : s.turn? u = some t) :
    t.time? = u.time := by
  obtain ⟨⟨f, time, pair, seconds⟩, hh, ht⟩ := Option.bind_eq_some_iff.mp h
  have hu : u.time = some time := by
    rw [heard?] at hh
    split at hh
    · next hutime _ =>
      obtain ⟨_, -, he⟩ := Option.map_eq_some_iff.mp hh
      cases he
      exact hutime
    · cases hh
  rw [hu]
  dsimp only at ht
  rw [turnOf.eq_def] at ht
  split at ht
  · obtain ⟨text, -, rfl⟩ := Option.map_eq_some_iff.mp ht
    rfl
  · obtain rfl := Option.some.inj ht
    rfl
  · cases ht

private theorem Link.times_turns_sublist (l : Link δ σ) (calls : List Call) :
    ((l.turns calls).filterMap Turn.time?).Sublist (calls.filterMap Call.time?) := by
  induction calls generalizing l with
  | nil => exact List.Sublist.slnil
  | cons c calls ih =>
    have hfirst : ((l.turn? c).toList.filterMap Turn.time?).Sublist
        ([c].filterMap Call.time?) := by
      cases ht : l.turn? c with
      | none => exact List.nil_sublist _
      | some t =>
        cases c with
        | unit u =>
          have htime : t.time? = u.time := Stream.time?_turn? ht
          rw [Option.toList_some, List.filterMap_cons, List.filterMap_cons, htime, Call.time?]
          exact List.Sublist.refl _
        | caps c => cases ht
        | signal e =>
          cases e <;>
          · obtain rfl := Option.some.inj ht
            exact List.nil_sublist _
        | transition t' =>
          rw [turn?] at ht
          split at ht
          · obtain rfl := Option.some.inj ht
            exact List.nil_sublist _
          · cases ht
    rw [turns, List.filterMap_append, ← List.singleton_append, List.filterMap_append]
    exact hfirst.append (ih _)

end Turns

/-! ### Showings in order -/

namespace Turn

/-- A showing starts with its turn, and lasts up to the next one or no time at all. -/
theorem timing_of_showing? {t next : Turn} {s : Showing} (h : t.showing? next = some s) :
    t.time? = some s.start ∧
      (s.duration = 0 ∨
        ∃ time, next.time? = some time ∧ s.duration = durationBetween s.start time) := by
  cases t with
  | shown f start text =>
    obtain ⟨duration, hs, rfl⟩ := Option.map_eq_some_iff.mp h
    refine ⟨rfl, ?_⟩
    cases next with
    | shown _ time _ | cleared time => exact .inr ⟨time, rfl, (Option.some.inj hs).symm⟩
    | finished => exact .inl (Option.some.inj hs).symm
    | flushed | restarted => cases hs
  | cleared _ | finished | flushed | restarted => cases h

end Turn

namespace Timeline

/-- The times of a timeline, in order. -/
def times (ts : List Turn) : List Int := ts.filterMap Turn.time?

private theorem start_mem_times {ts : List Turn} {s : Showing} (h : s ∈ showings ts) :
    s.start ∈ times ts := by
  induction ts with
  | nil => cases h
  | cons t ts ih =>
    cases ts with
    | nil => cases h
    | cons next ts =>
      rw [showings_cons_cons, List.mem_append, Option.mem_toList] at h
      rw [times, List.filterMap_cons]
      rcases h with h | h
      · rw [(Turn.timing_of_showing? h).1]
        exact List.mem_cons_self
      · cases t.time? with
        | none => exact ih h
        | some time => exact List.mem_cons_of_mem _ (ih h)

/-- While time runs forwards the first showing ends no later than anything that follows it. -/
theorem finish_le_of_showing? {t next : Turn} {ts : List Turn}
    (h : (times (t :: next :: ts)).Pairwise (· ≤ ·)) {s : Showing}
    (hs : t.showing? next = some s) :
    s.start + s.duration ∈ times (t :: next :: ts) ∧
      ∀ time ∈ times (next :: ts), s.start + s.duration ≤ time := by
  obtain ⟨hstart, hduration⟩ := Turn.timing_of_showing? hs
  have ht : times (t :: next :: ts) = s.start :: times (next :: ts) := by
    rw [times, List.filterMap_cons, hstart]
    rfl
  rw [ht] at h ⊢
  obtain ⟨hle, hsorted⟩ := List.pairwise_cons.mp h
  rcases hduration with hz | ⟨finish, hfinish, hd⟩
  · rw [hz, Int.add_zero]
    exact ⟨List.mem_cons_self, hle⟩
  · have hn : times (next :: ts) = finish :: times ts := by
      rw [times, List.filterMap_cons, hfinish]
      rfl
    rw [hn] at hle hsorted ⊢
    rw [hd, add_durationBetween (hle finish List.mem_cons_self)]
    refine ⟨List.mem_cons_of_mem _ List.mem_cons_self, fun time hm ↦ ?_⟩
    rcases List.mem_cons.mp hm with rfl | hm
    · exact Int.le_refl _
    · exact (List.pairwise_cons.mp hsorted).1 time hm

private theorem finish_mem_times {ts : List Turn} (h : (times ts).Pairwise (· ≤ ·)) {s : Showing}
    (hs : s ∈ showings ts) : s.start + s.duration ∈ times ts := by
  induction ts with
  | nil => cases hs
  | cons t ts ih =>
    cases ts with
    | nil => cases hs
    | cons next ts =>
      have htail : (times (next :: ts)).Sublist (times (t :: next :: ts)) :=
        (List.sublist_cons_self t _).filterMap _
      rw [showings_cons_cons, List.mem_append, Option.mem_toList] at hs
      rcases hs with hs | hs
      · exact (finish_le_of_showing? h hs).1
      · exact htail.subset (ih (h.sublist htail) hs)

private theorem showings_pairwise {ts : List Turn} (h : (times ts).Pairwise (· ≤ ·)) :
    (showings ts).Pairwise fun s s' ↦ s.start + s.duration ≤ s'.start := by
  induction ts with
  | nil => exact List.Pairwise.nil
  | cons t ts ih =>
    cases ts with
    | nil => exact List.Pairwise.nil
    | cons next ts =>
      have htail : (times (next :: ts)).Pairwise (· ≤ ·) :=
        h.sublist ((List.sublist_cons_self t _).filterMap _)
      rw [showings_cons_cons]
      cases hs : t.showing? next with
      | none => exact ih htail
      | some s =>
        refine List.pairwise_cons.mpr ⟨fun s' hs' ↦ ?_, ih htail⟩
        exact (finish_le_of_showing? h hs).2 _ (start_mem_times hs')

private theorem duration_nonneg {ts : List Turn} {s : Showing} (h : s ∈ showings ts) :
    0 ≤ s.duration := by
  obtain ⟨⟨t, next⟩, -, hs⟩ := List.mem_filterMap.mp h
  rcases (Turn.timing_of_showing? hs).2 with hz | ⟨time, -, hd⟩
  · exact Int.le_of_eq hz.symm
  · rw [hd]
    exact durationBetween_nonneg _ _

private theorem timings_written (before : Nat) (ss : List Showing) :
    (written before ss).filterMap TextUnit.timing? = ss.map Showing.timing := by
  induction ss generalizing before with
  | nil => rfl
  | cons s ss ih =>
    have hw : written before (s :: ss) = s.units before ++ written (before + 1) ss :=
      written_append before [s] ss ▸ congrArg (· ++ _) (List.flatMap_singleton _ _)
    have hs : (s.units before).filterMap TextUnit.timing? = [s.timing] := by
      rw [Showing.units]
      split
      · cases s.format <;> rfl
      · rfl
    rw [hw, List.filterMap_append, hs, ih]
    rfl

/-- Of a timeline the starts and durations of its showings are to be seen, whatever lives it
has. -/
theorem timings_units (ts : List Turn) :
    (units ts).filterMap TextUnit.timing? = (showings ts).map Showing.timing := by
  have hfrom (before : Nat) (last : Option Turn) (ts : List Turn) :
      (writtenFrom before last ts).filterMap TextUnit.timing? =
        (showings (last.toList ++ ts)).map Showing.timing := by
    induction ts generalizing before last with
    | nil => cases last <;> rfl
    | cons t ts ih =>
      rw [writtenFrom, List.filterMap_append, timings_written, ih]
      cases last with
      | none => rfl
      | some last =>
        change _ = (showings (last :: t :: ts)).map Showing.timing
        rw [showings_cons_cons, List.map_append]
        rfl
  rw [← writtenFrom_zero, hfrom]
  rfl

end Timeline

namespace Link

open Downstream (Records Calm)

variable {δ σ : Type} [CaptionDecoder δ] [Downstream σ]

/-- Whatever is called and whatever the decoder reports, while the times of the units do not
decrease a calm consumer takes cues that never last less than no time, of which none ends after a
later one starts, and which have all ended by the time of the latest unit. -/
theorem one_caption_at_a_time {taken : σ → List TextUnit} (hr : Records taken) (hc : Calm σ)
    (d : σ) {calls : List Call} (ht : (calls.filterMap Call.time?).Pairwise (· ≤ ·)) :
    ∃ us, taken ((⟨.fresh, d⟩ : Link δ σ).run calls).downstream = taken d ++ us ∧
      (us.filterMap TextUnit.timing?).Pairwise (fun a b ↦ a.1 + a.2 ≤ b.1) ∧
      ∀ a ∈ us.filterMap TextUnit.timing?, 0 ≤ a.2 ∧
        ∃ latest ∈ (calls.filterMap Call.time?).getLast?, a.1 + a.2 ≤ latest := by
  have hsub := (⟨.fresh, d⟩ : Link δ σ).times_turns_sublist calls
  have hsorted : (Timeline.times ((⟨.fresh, d⟩ : Link δ σ).turns calls)).Pairwise (· ≤ ·) :=
    ht.sublist hsub
  refine ⟨_, taken_run hr hc d calls, ?_, ?_⟩
  · rw [Timeline.timings_units, List.pairwise_map]
    exact Timeline.showings_pairwise hsorted
  · intro a ha
    rw [Timeline.timings_units] at ha
    obtain ⟨s, hs, rfl⟩ := List.mem_map.mp ha
    refine ⟨Timeline.duration_nonneg hs, ?_⟩
    have hm := hsub.subset (Timeline.finish_mem_times hsorted hs)
    generalize calls.filterMap Call.time? = times at ht hm
    have hne : times ≠ [] := List.ne_nil_of_mem hm
    refine ⟨times.getLast hne, List.getLast?_eq_some_getLast hne, ?_⟩
    rw [← List.dropLast_concat_getLast hne, List.mem_append, List.mem_singleton] at hm
    rw [← List.dropLast_concat_getLast hne] at ht
    rcases hm with hm | hm
    · exact (List.pairwise_append.mp ht).2.2 _ hm _ (List.mem_singleton_self _)
    · exact Int.le_of_eq hm

/-- The stream ends while a caption waits and goes on, another caption is flushed away, a pair
does not arrive whole, and two captions come up at one time. -/
theorem one_caption_at_a_time_ended_twice :
    let calls : List Call :=
      [.caps .captionPairs, .unit ⟨[0x94, 0x29], some 0⟩, .unit ⟨[0xc1, 0x80], some 1000000000⟩,
        .signal .finish, .unit ⟨[0xc2, 0x80], some 1500000000⟩, .signal .flush,
        .unit ⟨[0x94, 0x29], some 2000000000⟩, .unit ⟨[0xc2, 0x00], some 2000000000⟩,
        .unit ⟨[0x43, 0x80], some 2500000000⟩, .unit ⟨[0xc4, 0x80], some 2500000000⟩,
        .unit ⟨[], none⟩, .unit ⟨[0x94, 0x2c], some 3000000000⟩, .signal .finish]
    let l : Link Receiver Collector := ⟨.fresh, .only .subRip⟩
    let us := (l.run calls).downstream.units.toList
    Records (fun c : Collector ↦ c.units.toList) ∧ Calm Collector ∧
      (calls.filterMap Call.time?).Pairwise (· ≤ ·) ∧
      us.filterMap TextUnit.timing? =
        [(1000000000, 0), (2500000000, 0), (2500000000, 500000000)] ∧
      (us.filterMap TextUnit.timing?).Pairwise (fun a b ↦ a.1 + a.2 ≤ b.1) := by
  intro calls l us
  have hsorted : (calls.filterMap Call.time?).Pairwise (· ≤ ·) := by decide
  obtain ⟨us', hus, hp, -⟩ := one_caption_at_a_time (δ := Receiver) Collector.records
    Collector.calm (.only .subRip) hsorted
  obtain rfl : us = us' := hus
  exact ⟨Collector.records, Collector.calm, hsorted, by decide +kernel, hp⟩

end Link

end Line21
