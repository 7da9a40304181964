import Line21.Proofs.Stream.Telling

/-!
# Interruptions

A consumer that raises signals while it holds units interrupts the deliveries of a stream. Main
statement: it takes the header before every cue, and each cue once, in the order of the numbers
unless the second cue overtakes the first.
-/

namespace Line21

namespace Link

open Downstream (Records Willing)

variable {δ σ : Type} [CaptionDecoder δ] [Downstream σ] {P : σ → Prop} {d : σ}

/-- A consumer that takes every unit may raise signals while it holds one. It takes the header
before every cue, and each cue that the stream has numbered once, in the order of the numbers
unless the second cue overtakes the first. That happens to WebVTT only, when the consumer asks for
the end of the stream while it holds the header and a caption waits. -/
theorem taken_in_order_or_overtaken {taken : σ → List TextUnit} (hr : Records taken)
    (hw : Willing P) (hd : P d) {calls : List Call} (hc : ∀ c ∈ calls, c.restarts = false) :
    let l : Link δ σ := ⟨.fresh, d⟩
    let overtaken := Entry.overtaken (l.journal calls)
    ∃ (f : Format) (cues : List Cue), ((l.run calls).stream.format = some f ∨ cues = []) ∧
      cues.map (·.number) = (List.range' 1 cues.length).map Nat.cast ∧
      (l.run calls).stream.nextNumber = cues.length + 1 ∧
      (l.journal calls).filterMap (·.cue) = (if overtaken then swapFirst cues else cues) ∧
      taken (l.run calls).downstream =
        taken d ++ (cues.head?.bind fun c ↦ f.header c.start).toList ++
          ((l.journal calls).filterMap (·.cue)).map f.render ∧
      (overtaken = true → f = .webVtt ∧ 2 ≤ cues.length) := by
  intro l overtaken
  obtain ⟨cues, ht, last, hs⟩ :=
    tells_run (l := l) hw hd Stream.counts_fresh hc (Stream.speaks_getD _)
  refine ⟨_, cues, ?_, ht.numbered, ?_, ht.filterMap_cue, ?_, fun ho ↦ (ht.overtaken ho).2⟩
  · cases hg : (l.run calls).stream.format with
    | some g => exact .inl rfl
    | none =>
      rw [journal_of_format hc hg] at ht
      exact .inr (ht.eq_nil_iff.mpr rfl)
  · rw [hs.nextNumber, Nat.zero_add]
  · rw [taken_run_journal hr, ht.map_unit, ← List.append_assoc, Format.map_unit_preface]
    rfl

/-- Two captions come up, and the consumer asks for the end of the stream at every unit that it
takes, so the cue of the second one comes between the header and the first. -/
theorem taken_in_order_or_overtaken_swapped :
    let d : Stage := { raises := some .finish }
    let calls : List Call :=
      [.caps .captionPairs, .unit ⟨[0x94, 0x29], some 0⟩, .unit ⟨[0xc1, 0x80], some 1000000000⟩,
        .unit ⟨[0xc2, 0x80], some 1500000000⟩]
    let l : Link Receiver Stage := ⟨.fresh, d⟩
    Records (fun d : Stage ↦ d.units.toList) ∧ Willing (fun d : Stage ↦ d.failures = []) ∧
      d.failures = [] ∧ (∀ c ∈ calls, c.restarts = false) ∧
      Entry.overtaken (l.journal calls) = true ∧
      ∃ cues, cues.map (·.number) = (List.range' 1 cues.length).map Nat.cast ∧
        2 ≤ cues.length ∧ (l.journal calls).filterMap (·.cue) = swapFirst cues := by
  intro d calls l
  have ho : Entry.overtaken (l.journal calls) = true := by decide +kernel
  have hc : ∀ c ∈ calls, c.restarts = false := by decide
  refine ⟨Stage.records, Stage.willing, rfl, hc, ho, ?_⟩
  obtain ⟨f, cues, -, hn, -, ha, -, hl⟩ :=
    taken_in_order_or_overtaken (δ := Receiver) Stage.records Stage.willing (d := d) rfl hc
  refine ⟨cues, hn, (hl ho).2, ?_⟩
  rw [ha]
  exact if_pos ho

/-- Not every consumer that takes all cues takes them in the order of their numbers. -/
theorem not_forall_in_order :
    ¬ ∀ (d : Stage) (calls : List Call), d.failures = [] → (∀ c ∈ calls, c.restarts = false) →
      (((⟨.fresh, d⟩ : Link Receiver Stage).journal calls).filterMap (·.cue)).Pairwise
        (·.number < ·.number) := by
  intro h
  let calls : List Call :=
    [.caps .captionPairs, .unit ⟨[0x94, 0x29], some 0⟩, .unit ⟨[0xc1, 0x80], some 1000000000⟩,
      .unit ⟨[0xc2, 0x80], some 1500000000⟩]
  have ho := h { raises := some .finish } calls rfl (by decide)
  revert ho
  decide +kernel

end Link

end Line21
