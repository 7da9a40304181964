import Line21.Proofs.Stream.Course

/-!
# Consumers that fail

A consumer that fails to take a unit stops the call that hands it over, and nothing else. Main
statement: whichever pushes fail, the stream goes through the same states as in a run in which
none does, so long as the consumers offer the same. A call hands over the same units up to the
first failure, which is the result of the call, and the consumer hears no signal of it.
-/

namespace Line21

open Downstream (Records Reticent Calm pushAll failure? failure?_of_calm taken_pushAll_of_none
  taken_pushAll_of_some)

variable {δ σ τ : Type} [CaptionDecoder δ]

/-- The units that a call gives out. -/
def Stream.given (s : Stream δ) : Call → List TextUnit
  | .unit u =>
    match s.accept u with
    | .ok (_, us) => us
    | .error _ => []
  | .signal .finish => s.drain.2
  | .signal .flush | .caps _ | .transition _ => []

private theorem Stream.raise_eq_given (s : Stream δ) (e : Signal) :
    (s.raise e).2 = (s.given (.signal e)).map .unit ++ [.signal e] := by
  cases e <;> rfl

private theorem Stream.accept_ne_refused (s : Stream δ) (u : CaptionUnit) (reason : String) :
    s.accept u ≠ .error (.refused reason) := by
  intro h
  rw [accept] at h
  split at h
  · cases h
  · split at h
    · cases h
    · unfold acceptTimed at h
      split at h
      · split at h <;> cases h
      · cases h

namespace Link

variable [Downstream σ] [Downstream τ] {P : σ → Prop} {Q : τ → Prop}

/-- The consumers of two links offer the same when a call asks for it. -/
def SameOffer (l : Link δ σ) (l' : Link δ τ) : Call → Prop
  | .caps input => l.stream.format = none → input.carriesPairs = true →
    (Downstream.offer l.downstream).2 = (Downstream.offer l'.downstream).2
  | .unit _ | .signal _ | .transition _ => True

/-- The consumers of two links offer the same whenever a run of calls asks for it. -/
def SameOffers (l : Link δ σ) (l' : Link δ τ) : List Call → Prop
  | [] => True
  | c :: calls => l.SameOffer l' c ∧ SameOffers (l.call c).1 (l'.call c).1 calls

/-! ### The stream -/

private theorem stream_deliver_of_reticent (hp : Reticent P) (s : Stream δ) {d : σ} (hd : P d)
    (answer : Bool) (agenda : List Delivery) : (deliver s d answer agenda).1.stream = s := by
  fun_induction deliver s d answer agenda with
  | case1 s d answer => rfl
  | case2 s d answer e rest d' answer' h ih =>
    have hn := hp.of_notify d e hd
    rw [h] at hn
    exact ih hn
  | case3 s d answer u rest d' reason h => rfl
  | case4 s d answer u rest d' h ih =>
    have hn := hp.of_push d u hd
    rw [h] at hn
    exact ih hn
  | case5 s d answer u rest d' e h ih =>
    exact absurd (congrArg Prod.snd h) (hp.push_ne d u e hd)

/-- Links of one stream are again links of one stream after a call, if their consumers offer the
same. -/
theorem stream_call_eq (hp : Reticent P) (hq : Reticent Q) {s : Stream δ} {d : σ} {d' : τ}
    (hd : P d) (hd' : Q d') {c : Call}
    (ho : (⟨s, d⟩ : Link δ σ).SameOffer (⟨s, d'⟩ : Link δ τ) c) :
    ((⟨s, d⟩ : Link δ σ).call c).1.stream = ((⟨s, d'⟩ : Link δ τ).call c).1.stream := by
  cases c with
  | unit u =>
    simp only [call, accept]
    split
    · rfl
    · rw [stream_deliver_of_reticent hp _ hd, stream_deliver_of_reticent hq _ hd']
  | signal e =>
    simp only [call, signal]
    rw [stream_deliver_of_reticent hp _ hd, stream_deliver_of_reticent hq _ hd']
  | caps input =>
    simp only [call, negotiate]
    split
    · rfl
    · next hf =>
      split
      · rfl
      · next hi =>
        have hoffer : (Downstream.offer d).2 = (Downstream.offer d').2 :=
          ho (by simpa using hf) (by simpa using hi)
        rw [hoffer]
        cases Format.choose (Downstream.offer d').2 <;> rfl
  | transition t =>
    simp only [call, transit]
    split <;> rfl

/-- Links of one stream are links of one stream after a run, if their consumers offer the same. -/
theorem stream_run_eq (hp : Reticent P) (hq : Reticent Q) {s : Stream δ} {d : σ} {d' : τ}
    (hd : P d) (hd' : Q d') {calls : List Call}
    (ho : (⟨s, d⟩ : Link δ σ).SameOffers (⟨s, d'⟩ : Link δ τ) calls) :
    ((⟨s, d⟩ : Link δ σ).run calls).stream = ((⟨s, d'⟩ : Link δ τ).run calls).stream := by
  induction calls generalizing s d d' with
  | nil => rfl
  | cons c calls ih =>
    obtain ⟨hc, ho⟩ := ho
    have hs := stream_call_eq hp hq hd hd' hc
    have hcd : P ((⟨s, d⟩ : Link δ σ).call c).1.downstream := closed_call hp.toClosed hd c
    have hcd' : Q ((⟨s, d'⟩ : Link δ τ).call c).1.downstream := closed_call hq.toClosed hd' c
    change (((⟨s, d⟩ : Link δ σ).call c).1.run calls).stream =
      (((⟨s, d'⟩ : Link δ τ).call c).1.run calls).stream
    generalize ((⟨s, d⟩ : Link δ σ).call c).1 = l at *
    generalize ((⟨s, d'⟩ : Link δ τ).call c).1 = l' at *
    obtain ⟨t, e⟩ := l
    obtain ⟨t', e'⟩ := l'
    obtain rfl : t = t' := hs
    exact ih hcd hcd' ho

/-! ### The units -/

/-- What comes of handing over units to a consumer: where it is left, and with which result. -/
structure HandsOver {α : Type} (taken : σ → List TextUnit) (d : σ) (us : List TextUnit) (d' : σ)
    (result : Except StreamError α) : Prop where
  /-- The consumer takes the units before the first that it fails to take. -/
  taken_eq : taken d' = taken d ++ us.take ((failure? d us).elim us.length (·.1))
  /-- The failure is the result, and no failure is without a unit. -/
  refused_iff : ∀ reason, result = .error (.refused reason) ↔
    ∃ i, failure? d us = some (i, reason)
  /-- After a failure the consumer has been called for nothing but these units. -/
  eq_pushAll : ∀ i reason, failure? d us = some (i, reason) → d' = pushAll d (us.take (i + 1))

/-- The result may be put in another form. -/
theorem HandsOver.map {α β : Type} {taken : σ → List TextUnit} {d d' : σ} {us : List TextUnit}
    {result : Except StreamError α} (h : HandsOver taken d us d' result) (f : α → β) :
    HandsOver taken d us d' (result.map f) where
  taken_eq := h.taken_eq
  refused_iff reason := by
    rw [← h.refused_iff]
    cases result with
    | error e => simp only [Except.map, Except.error.injEq]
    | ok a => simp only [Except.map, reduceCtorEq]
  eq_pushAll := h.eq_pushAll

/-- Without units there is no failure. -/
theorem HandsOver.nil {α : Type} {taken : σ → List TextUnit} {d d' : σ}
    {result : Except StreamError α} (ht : taken d' = taken d)
    (hr : ∀ reason, result ≠ .error (.refused reason)) : HandsOver taken d [] d' result where
  taken_eq := ht.trans (List.append_nil _).symm
  refused_iff reason := ⟨fun he ↦ absurd he (hr reason), fun he ↦ nomatch he⟩
  eq_pushAll _ _ hi := nomatch hi

private theorem deliver_signals {taken : σ → List TextUnit} (hr : Records taken) (s : Stream δ)
    (d : σ) (answer : Bool) (es : List Signal) :
    taken (deliver s d answer (es.map .signal)).1.downstream = taken d ∧
      ∃ b, (deliver s d answer (es.map .signal)).2 = .ok b := by
  induction es generalizing d answer with
  | nil =>
    rw [List.map_nil, deliver]
    exact ⟨rfl, answer, rfl⟩
  | cons e es ih =>
    rw [List.map_cons, deliver]
    obtain ⟨ht, hb⟩ := ih (Downstream.notify d e).1 (Downstream.notify d e).2
    exact ⟨ht.trans (hr.taken_notify d e), hb⟩

/-- A delivery hands over its units, with signals behind them that are passed on if there is no
failure. -/
theorem handsOver_deliver {taken : σ → List TextUnit} (hr : Records taken) (hp : Reticent P)
    (s : Stream δ) {d : σ} (hd : P d) (answer : Bool) (us : List TextUnit) (es : List Signal) :
    HandsOver taken d us (deliver s d answer (us.map .unit ++ es.map .signal)).1.downstream
      (deliver s d answer (us.map .unit ++ es.map .signal)).2 := by
  rw [deliver_units_of_reticent hp s hd]
  cases hf : failure? d us with
  | none =>
    obtain ⟨ht, b, hb⟩ := deliver_signals hr s (pushAll d us) answer es
    refine ⟨?_, ?_, ?_⟩
    · rw [hf]
      refine ht.trans ((taken_pushAll_of_none hr hf).trans ?_)
      rw [Option.elim_none, List.take_length]
    · intro reason
      rw [hf, hb]
      exact ⟨(nomatch ·), (nomatch ·)⟩
    · intro i reason hi
      rw [hf] at hi
      cases hi
  | some failure =>
    obtain ⟨i, reason⟩ := failure
    refine ⟨?_, ?_, ?_⟩
    · rw [hf]
      exact taken_pushAll_of_some hr hf
    · intro reason'
      rw [hf]
      constructor
      · rintro ⟨⟩
        exact ⟨i, rfl⟩
      · rintro ⟨j, ⟨⟩⟩
        rfl
    · intro j reason' hj
      rw [hf] at hj
      obtain ⟨rfl, -⟩ := Prod.mk.inj (Option.some.inj hj)
      rfl

/-- A call hands over what it gives out. -/
theorem handsOver_call {taken : σ → List TextUnit} (hr : Records taken) (hp : Reticent P)
    {l : Link δ σ} (hd : P l.downstream) (c : Call) :
    HandsOver taken l.downstream (l.stream.given c) (l.call c).1.downstream (l.call c).2 := by
  cases c with
  | unit u =>
    cases ha : l.stream.accept u with
    | error e =>
      simp only [call, accept, Stream.given, ha]
      refine .map (.nil rfl ?_) _
      rintro reason ⟨⟩
      exact l.stream.accept_ne_refused u reason ha
    | ok r =>
      obtain ⟨s, us⟩ := r
      have hd := handsOver_deliver hr hp s hd true us []
      rw [List.map_nil, List.append_nil] at hd
      simp only [call, accept, Stream.given, ha]
      exact (hd.map _).map _
  | signal e =>
    have hd := handsOver_deliver hr hp (l.stream.raise e).1 hd true (l.stream.given (.signal e)) [e]
    rw [List.map_singleton, ← Stream.raise_eq_given] at hd
    exact hd.map _
  | caps c => exact .map (.nil (taken_negotiate hr l c) (l.negotiate_ne_refused c)) _
  | transition t =>
    have ht : (l.transit t).downstream = l.downstream := by
      rw [transit]
      split <;> rfl
    refine .nil (congrArg taken ht) ?_
    rintro reason ⟨⟩

private theorem SameOffers.append {l : Link δ σ} {l' : Link δ τ} {calls calls' : List Call}
    (h : l.SameOffers l' (calls ++ calls')) :
    l.SameOffers l' calls ∧ (l.run calls).SameOffers (l'.run calls) calls' := by
  induction calls generalizing l l' with
  | nil => exact ⟨trivial, h⟩
  | cons c calls ih =>
    obtain ⟨hc, h⟩ := h
    obtain ⟨hcs, h⟩ := ih h
    exact ⟨⟨hc, hcs⟩, h⟩

/-- A consumer that raises no signals may fail to take units, for whatever reason it has. Its
stream goes through the same states as with a consumer that fails to take none, if the two offer
the same. Each call hands over the units that the other consumer takes of it, up to the first
failure; that is the result of the call, and no signal is passed on after it. -/
theorem stream_unharmed_by_failures {taken : σ → List TextUnit} {taken' : τ → List TextUnit}
    (hr : Records taken) (hr' : Records taken') (hp : Reticent P) (hc : Calm τ) {s : Stream δ}
    {d : σ} {d' : τ} (hd : P d) {calls : List Call} {c : Call}
    (ho : (⟨s, d⟩ : Link δ σ).SameOffers (⟨s, d'⟩ : Link δ τ) (calls ++ [c])) :
    let l := (⟨s, d⟩ : Link δ σ).run calls
    let l' := (⟨s, d'⟩ : Link δ τ).run calls
    l.stream = l'.stream ∧ (l.call c).1.stream = (l'.call c).1.stream ∧
      ∃ us, taken' (l'.call c).1.downstream = taken' l'.downstream ++ us ∧
        HandsOver taken l.downstream us (l.call c).1.downstream (l.call c).2 := by
  intro l l'
  have hs : l.stream = l'.stream := stream_run_eq hp hc.reticent hd trivial ho.append.1
  have hs' : (l.call c).1.stream = (l'.call c).1.stream := by
    have hrun := stream_run_eq hp hc.reticent hd trivial ho
    rw [run_append, run_append] at hrun
    exact hrun
  have hl := handsOver_call hr hp (closed_run (l := ⟨s, d⟩) hp.toClosed hd calls) c
  have hl' := (handsOver_call hr' hc.reticent (l := l') trivial c).taken_eq
  rw [failure?_of_calm hc, Option.elim_none, List.take_length, ← hs] at hl'
  exact ⟨hs, hs', l.stream.given c, hl', hl⟩

/-- The consumer fails to take the first cue and the last. The first failure is that of a unit;
the last one is that of the end of the stream, which the consumer then does not hear of. -/
theorem stream_unharmed_by_failures_twice :
    let d : Stage := { allowed := some [Format.webVtt.caps], failures := [2, 3] }
    let d' : Collector := .only .webVtt
    let calls : List Call :=
      [.caps .captionPairs, .unit ⟨[0x94, 0x29], some 0⟩, .unit ⟨[0xc1, 0x80], some 1000000000⟩,
        .unit ⟨[0xc2, 0x80], some 1500000000⟩]
    let l := (⟨.fresh, d⟩ : Link Receiver Stage).run calls
    let l' := (⟨.fresh, d'⟩ : Link Receiver Collector).run calls
    Records (fun d : Stage ↦ d.units.toList) ∧ Records (fun c : Collector ↦ c.units.toList) ∧
      Reticent (fun d : Stage ↦ d.raises = none) ∧ Calm Collector ∧ d.raises = none ∧
      (⟨.fresh, d⟩ : Link Receiver Stage).SameOffers (⟨.fresh, d'⟩ : Link Receiver Collector)
        (calls ++ [.signal .finish]) ∧
      l.downstream.units.toList = [⟨"WEBVTT\r\n\r\n", 1000000000, none⟩] ∧
      (l.call (.signal .finish)).1.stream = (l'.call (.signal .finish)).1.stream ∧
      (l.call (.signal .finish)).2 = .error (.refused "downstream full") ∧
      (l.call (.signal .finish)).1.downstream.units.toList = l.downstream.units.toList := by
  intro d d' calls l l'
  have ho : (⟨.fresh, d⟩ : Link Receiver Stage).SameOffers (⟨.fresh, d'⟩ : Link Receiver Collector)
      (calls ++ [.signal .finish]) :=
    ⟨fun _ _ ↦ rfl, trivial, trivial, trivial, trivial, trivial⟩
  refine ⟨Stage.records, Collector.records, Stage.reticent, Collector.calm, rfl, ho,
    by decide +kernel, ?_⟩
  obtain ⟨-, hs, us, hu, hh⟩ :=
    stream_unharmed_by_failures Stage.records Collector.records Stage.reticent Collector.calm rfl ho
  let cue : TextUnit := ⟨"00:00:01.500 --> 00:00:01.500\r\nAB\r\n\r\n", 1500000000, some 0⟩
  have hcue : (l'.call (.signal .finish)).1.downstream.units.toList =
      l'.downstream.units.toList ++ [cue] := by
    decide +kernel
  obtain rfl : [cue] = us := List.append_cancel_left (hcue.symm.trans hu)
  have hf : failure? l.downstream [cue] = some (0, "downstream full") := by decide +kernel
  have ht := hh.taken_eq
  rw [hf] at ht
  exact ⟨hs, (hh.refused_iff _).mpr ⟨0, hf⟩, ht.trans (List.append_nil _)⟩

end Link

end Line21
