import Line21.Proofs.Stream.Telling
import Mathlib.Data.List.DropRight

/-!
# Numbers of cues

A restart ends one life of a stream and begins the next. Main statement: since the last restart
a calm consumer has taken one header, if the format has one, and then cues that are numbered
from one on. The number of the next cue and whether the header is written tell how many cues
there were, and a stream that has agreed on no format is as good as new.
-/

namespace Line21

/-! ### The last life of a run -/

namespace Call

/-- The calls up to the last one at which the stream starts over. -/
def earlier (calls : List Call) : List Call := calls.rdropWhile (!·.restarts)

/-- The calls after the last one at which the stream starts over. -/
def since (calls : List Call) : List Call := calls.rtakeWhile (!·.restarts)

/-- The calls are those up to the last restart and those after it. -/
theorem earlier_append_since (calls : List Call) : earlier calls ++ since calls = calls :=
  List.rdropWhile_append_rtakeWhile

/-- The stream does not start over after the last restart. -/
theorem restarts_of_mem_since {calls : List Call} {c : Call} (h : c ∈ since calls) :
    c.restarts = false := by
  have hc := List.mem_rtakeWhile_imp h
  rwa [Bool.not_eq_true'] at hc

end Call

private theorem Format.bind_header (f : Format) (cues : List Cue) :
    (cues.head?.bind fun c ↦ f.header c.start) =
      if f = .webVtt then cues.head?.map fun c ↦ ⟨"WEBVTT\r\n\r\n", c.start, none⟩ else none := by
  cases f with
  | webVtt => cases cues <;> rfl
  | subRip | plain => cases cues <;> rfl

namespace Link

open Downstream (Records Calm)

section Calls

variable {δ σ : Type} [CaptionDecoder δ] [Downstream σ]

/-- A call at which the stream starts over leaves a fresh stream. -/
theorem stream_call_of_restarts {c : Call} (hc : c.restarts = true) (l : Link δ σ) :
    (l.call c).1.stream = .fresh := by
  cases c with
  | transition t =>
    rw [Call.restarts] at hc
    rw [call, transit, hc]
    rfl
  | unit u => cases hc
  | caps c => cases hc
  | signal e => cases hc

/-- After the last restart of a run, or at its beginning, a fresh stream is a fresh stream. -/
theorem stream_run_earlier (d : σ) (calls : List Call) :
    ((⟨.fresh, d⟩ : Link δ σ).run (Call.earlier calls)).stream = .fresh := by
  induction calls using List.reverseRecOn with
  | nil => rfl
  | append_singleton calls c ih =>
    rw [Call.earlier, List.rdropWhile_concat]
    split
    · exact ih
    · next hc =>
      rw [Bool.not_eq_true, Bool.not_eq_false'] at hc
      rw [run_append]
      exact stream_call_of_restarts hc _

private theorem answer_of_mem_enter (hc : Calm σ) (s : Stream δ) (d : σ) (parcels : List Parcel) :
    ∀ e ∈ enter s d parcels, e.answer = none := by
  fun_induction enter s d parcels with
  | case1 s d => exact List.forall_mem_nil _
  | case2 s d e rest ih => exact ih
  | case3 s d p rest d' reason h => exact List.forall_mem_nil _
  | case4 s d p rest d' h ih => exact List.forall_mem_cons.mpr ⟨rfl, ih⟩
  | case5 s d p rest d' e h ih =>
    have hp := hc d p.unit
    rw [h] at hp
    cases hp

/-- A calm consumer raises nothing over a run. -/
theorem answer_of_mem_journal (hc : Calm σ) (l : Link δ σ) (calls : List Call) :
    ∀ e ∈ l.journal calls, e.answer = none := by
  induction calls generalizing l with
  | nil => exact List.forall_mem_nil _
  | cons c calls ih =>
    refine List.forall_mem_append.mpr ⟨?_, ih _⟩
    cases c with
    | unit u =>
      rw [entries]
      split
      · exact List.forall_mem_nil _
      · exact answer_of_mem_enter hc _ _ _
    | signal e => exact answer_of_mem_enter hc _ _ _
    | caps c => exact List.forall_mem_nil _
    | transition t => exact List.forall_mem_nil _

/-- No cue overtakes another on its way to a calm consumer. -/
theorem overtaken_journal (hc : Calm σ) (l : Link δ σ) (calls : List Call) :
    Entry.overtaken (l.journal calls) = false := by
  have ha := answer_of_mem_journal hc l calls
  cases hj : l.journal calls with
  | nil => rfl
  | cons e j =>
    rw [hj] at ha
    rw [Entry.overtaken, ha e List.mem_cons_self]
    exact Bool.and_false _

/-- A calm consumer enters what is told of a run in the order of the numbers. -/
theorem tells_run_of_calm (hc : Calm σ) {l : Link δ σ} {before : Nat} (h : l.stream.Counts before)
    {calls : List Call} (hn : ∀ c ∈ calls, c.restarts = false) {f : Format}
    (hf : (l.run calls).stream.Speaks f) :
    Entry.Tells f before ((l.journal calls).filterMap (·.cue)) (l.journal calls) ∧
      (l.run calls).stream.Counts (before + ((l.journal calls).filterMap (·.cue)).length) := by
  obtain ⟨cues, ht, hs⟩ := tells_run hc.willing trivial h hn hf
  have he := ht.filterMap_cue
  rw [overtaken_journal hc, if_neg Bool.false_ne_true] at he
  rw [he]
  exact ⟨ht, hs⟩

private theorem taken_life {taken : σ → List TextUnit} (hr : Records taken) (hc : Calm σ)
    {l : Link δ σ} (h : l.stream.Counts 0) {calls : List Call}
    (hn : ∀ c ∈ calls, c.restarts = false) {f : Format}
    (hf : (l.run calls).stream.format = some f) :
    let cues := (l.journal calls).filterMap (·.cue)
    taken (l.run calls).downstream =
      taken l.downstream ++
        (if f = .webVtt then cues.head?.map fun c ↦ ⟨"WEBVTT\r\n\r\n", c.start, none⟩
          else none).toList ++ cues.map f.render := by
  intro cues
  obtain ⟨ht, -⟩ := tells_run_of_calm hc h hn (Stream.speaks_of_format hf)
  rw [taken_run_journal hr, ht.map_unit, Format.map_unit_preface, ← List.append_assoc,
    ← Format.bind_header]
  rfl

private theorem taken_life_of_format {taken : σ → List TextUnit} (hr : Records taken) {l : Link δ σ}
    {calls : List Call} (hn : ∀ c ∈ calls, c.restarts = false)
    (hf : (l.run calls).stream.format = none) :
    taken (l.run calls).downstream = taken l.downstream ∧
      (l.journal calls).filterMap (·.cue) = [] := by
  have hj := journal_of_format hn hf
  rw [taken_run_journal hr, hj]
  exact ⟨List.append_nil _, rfl⟩

end Calls

section Receivers

variable {σ : Type} [Downstream σ]

/-- A stream that has agreed on no format is as good as new. -/
def Unspoilt (l : Link Receiver σ) : Prop := l.stream.format = none → l.stream = .fresh

private theorem fresh_raise (e : Signal) : ((.fresh : Stream Receiver).raise e).1 = .fresh := by
  cases e <;> rfl

/-- Whatever is called, a stream that has agreed on no format stays as good as new. -/
theorem unspoilt_call {l : Link Receiver σ} (h : l.Unspoilt) (c : Call) :
    (l.call c).1.Unspoilt := by
  intro hf
  cases c with
  | unit u =>
    have hl : l.stream.format = none := (l.format_accept u).symm.trans hf
    have ha : l.stream.accept u = .error .notNegotiated := by rw [Stream.accept, hl]
    have hc : (l.call (.unit u)).1 = l := by
      rw [call, accept_of_error l u ha]
    rw [hc]
    exact h hl
  | caps c =>
    rcases l.stream_negotiate c with hs | ⟨-, f, hs⟩
    · exact hs.trans (h ((congrArg Stream.format hs).symm.trans hf))
    · have hf := (congrArg Stream.format hs).symm.trans hf
      cases hf
  | signal e =>
    have hl : l.stream = .fresh := h ((l.format_signal e).symm.trans hf)
    refine stream_deliver (P := (· = .fresh)) ?_ ?_ _ _ _
    · rintro s e rfl
      exact fresh_raise e
    · rw [hl]
      exact fresh_raise e
  | transition t =>
    cases ht : (Call.transition t).restarts with
    | true => exact stream_call_of_restarts ht l
    | false =>
      rw [Call.restarts] at ht
      rw [call, transit, ht] at hf ⊢
      exact h hf

/-- Over any run, a stream that has agreed on no format stays as good as new. -/
theorem unspoilt_run {l : Link Receiver σ} (h : l.Unspoilt) (calls : List Call) :
    (l.run calls).Unspoilt := by
  induction calls generalizing l with
  | nil => exact h
  | cons c calls ih => exact ih (unspoilt_call h c)

/-- Since the last restart a calm consumer has taken cues that are numbered from one on, after a
header of the time of the first cue under WebVTT, and nothing else. Without a format it has
taken nothing, and the stream is as good as new. The header is written and the next number
exceeds one just when there has been a cue. -/
theorem numbered_since_restart {taken : σ → List TextUnit} (hr : Records taken) (hc : Calm σ)
    (d : σ) (calls : List Call) :
    let start := (⟨.fresh, d⟩ : Link Receiver σ).run (Call.earlier calls)
    let l := (⟨.fresh, d⟩ : Link Receiver σ).run calls
    let cues := (start.journal (Call.since calls)).filterMap (·.cue)
    start.stream = .fresh ∧
      (∀ f, l.stream.format = some f →
        taken l.downstream =
          taken start.downstream ++
            (if f = .webVtt then cues.head?.map fun c ↦ ⟨"WEBVTT\r\n\r\n", c.start, none⟩
              else none).toList ++ cues.map f.render) ∧
      (l.stream.format = none →
        taken l.downstream = taken start.downstream ∧ cues = [] ∧ l.stream = .fresh) ∧
      cues.map (·.number) = (List.range' 1 cues.length).map Nat.cast ∧
      l.stream.nextNumber = cues.length + 1 ∧
      (l.stream.headerWritten = true ↔ 1 < l.stream.nextNumber) ∧
      (1 < l.stream.nextNumber ↔ cues ≠ []) := by
  intro start l cues
  have hs : start.stream = .fresh := stream_run_earlier d calls
  have h0 : start.stream.Counts 0 := by
    rw [hs]
    exact Stream.counts_fresh
  have hn : ∀ c ∈ Call.since calls, c.restarts = false := fun c hm ↦ Call.restarts_of_mem_since hm
  have hl : start.run (Call.since calls) = l := by
    rw [← run_append, Call.earlier_append_since]
  obtain ⟨ht, last, hk⟩ := tells_run_of_calm hc h0 hn (Stream.speaks_getD _)
  rw [hl, Nat.zero_add] at hk
  refine ⟨hs, ?_, ?_, ht.numbered, hk.nextNumber, ?_, ?_⟩
  · intro f hf
    rw [← hl] at hf ⊢
    exact taken_life hr hc h0 hn hf
  · intro hf
    have hu : l.stream = .fresh := unspoilt_run (fun _ ↦ rfl) calls hf
    rw [← hl] at hf ⊢
    obtain ⟨htaken, hcues⟩ := taken_life_of_format hr hn hf
    exact ⟨htaken, hcues, hl ▸ hu⟩
  · rw [hk.headerWritten, hk.nextNumber, decide_eq_true_iff]
    omega
  · rw [hk.nextNumber, ← List.length_pos_iff]
    exact Nat.succ_lt_succ_iff

/-- A caption is written before a restart. After it, two are written under a new header with the
numbers one and two, and the one between them is flushed away. -/
theorem numbered_since_restart_twice :
    let calls : List Call :=
      [.caps .captionPairs, .unit ⟨[0x94, 0x29], some 0⟩, .unit ⟨[0xc1, 0x80], some 1000000000⟩,
        .unit ⟨[0x94, 0x2c], some 2000000000⟩, .transition .pausedToReady, .signal .finish,
        .caps .captionPairs, .unit ⟨[0x94, 0x29], some 2500000000⟩,
        .unit ⟨[0xc1, 0x80], some 3000000000⟩, .unit ⟨[0x94, 0x2c], some 4000000000⟩,
        .unit ⟨[0xc2, 0x80], some 5000000000⟩, .signal .flush,
        .unit ⟨[0x94, 0x29], some 6000000000⟩, .unit ⟨[0x43, 0x80], some 7000000000⟩,
        .signal .finish]
    let start := (⟨.fresh, .only .webVtt⟩ : Link Receiver Collector).run (Call.earlier calls)
    let l := (⟨.fresh, .only .webVtt⟩ : Link Receiver Collector).run calls
    let cues := (start.journal (Call.since calls)).filterMap (·.cue)
    Records (fun c : Collector ↦ c.units.toList) ∧ Calm Collector ∧
      l.stream.format = some .webVtt ∧ cues.length = 2 ∧ start.downstream.units.toList.length = 2 ∧
      l.downstream.units.toList =
        start.downstream.units.toList ++ [⟨"WEBVTT\r\n\r\n", 3000000000, none⟩] ++
          cues.map Format.webVtt.render := by
  intro calls start l cues
  have hf : l.stream.format = some .webVtt := by decide +kernel
  refine ⟨Collector.records, Collector.calm, hf, by decide +kernel, by decide +kernel, ?_⟩
  obtain ⟨-, hw, -⟩ :=
    numbered_since_restart Collector.records Collector.calm (.only .webVtt) calls
  have hh : (cues.head?.map fun c ↦ (⟨"WEBVTT\r\n\r\n", c.start, none⟩ : TextUnit)) =
      some ⟨"WEBVTT\r\n\r\n", 3000000000, none⟩ := by
    decide +kernel
  refine (hw .webVtt hf).trans ?_
  rw [if_pos rfl, hh]
  rfl

end Receivers

end Link

end Line21
