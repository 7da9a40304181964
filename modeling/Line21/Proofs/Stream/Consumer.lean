import Line21.Conversion
import Line21.Stream.Rehearsal

/-!
# Consumers and what they take

What a consumer has taken is read off its states by a view to which every unit that it takes
is appended. A willing consumer takes every unit, a reticent one raises no signal while it holds
one, and a calm one does both. A delivery to a reticent consumer is the agenda in order up to the
first unit that it fails to take, so to a calm one it is the whole agenda.
-/

namespace Line21

namespace Downstream

variable {σ : Type} [Downstream σ]

/-- A view of the units that a consumer has taken. Only a push that succeeds changes it. -/
structure Records (taken : σ → List TextUnit) : Prop where
  taken_push : ∀ d u e, (push d u).2 = .ok e → taken (push d u).1 = taken d ++ [u]
  taken_push_error : ∀ d u reason, (push d u).2 = .error reason → taken (push d u).1 = taken d
  taken_offer : ∀ d, taken (offer d).1 = taken d
  taken_announce : ∀ d c, taken (announce d c).1 = taken d
  taken_notify : ∀ d e, taken (notify d e).1 = taken d

/-- A consumer that never fails to take a unit and never raises a signal of its own. -/
def Calm (σ : Type) [Downstream σ] : Prop := ∀ (d : σ) (u : TextUnit), (push d u).2 = .ok none

/-- States that a consumer does not leave, whatever it is called for. -/
structure Closed (P : σ → Prop) : Prop where
  of_push : ∀ d u, P d → P (push d u).1
  of_offer : ∀ d, P d → P (offer d).1
  of_announce : ∀ d c, P d → P (announce d c).1
  of_notify : ∀ d e, P d → P (notify d e).1

/-- States from which a consumer takes every unit, whatever it raises in answer. -/
structure Willing (P : σ → Prop) : Prop extends Closed P where
  push_ok : ∀ d u, P d → ∃ answer, (push d u).2 = .ok answer

/-- States from which a consumer raises no signal of its own, whether or not it takes a unit. -/
structure Reticent (P : σ → Prop) : Prop extends Closed P where
  push_ne : ∀ d u e, P d → (push d u).2 ≠ .ok (some e)

/-- A willing consumer takes a unit. -/
theorem Willing.exists_push {P : σ → Prop} (hw : Willing P) {d : σ} (hd : P d) (u : TextUnit) :
    ∃ d' answer, push d u = (d', .ok answer) ∧ P d' := by
  obtain ⟨answer, ha⟩ := hw.push_ok d u hd
  exact ⟨_, answer, Prod.ext rfl ha, hw.of_push d u hd⟩

/-- All states together are never left. -/
theorem closed_true : Closed fun _ : σ ↦ True where
  of_push _ _ h := h
  of_offer _ h := h
  of_announce _ _ h := h
  of_notify _ _ h := h

/-- A calm consumer is willing. -/
theorem Calm.willing (hc : Calm σ) : Willing fun _ : σ ↦ True where
  toClosed := closed_true
  push_ok d u _ := ⟨none, hc d u⟩

/-- A calm consumer is reticent. -/
theorem Calm.reticent (hc : Calm σ) : Reticent fun _ : σ ↦ True where
  toClosed := closed_true
  push_ne d u e _ := by
    rw [hc d u]
    exact nofun

/-! ### Units that are handed over -/

/-- The consumer after it was handed units in order. -/
def pushAll (d : σ) (us : List TextUnit) : σ := us.foldl (fun d u ↦ (push d u).1) d

/-- The first of the units that the consumer fails to take when it is handed them in order, by its
place, and what the consumer says of it. -/
def failure? (d : σ) : List TextUnit → Option (Nat × String)
  | [] => none
  | u :: us =>
    match push d u with
    | (_, .error reason) => some (0, reason)
    | (d, .ok _) => (failure? d us).map fun (i, reason) ↦ (i + 1, reason)

/-- A calm consumer fails to take no unit. -/
theorem failure?_of_calm (hc : Calm σ) (d : σ) (us : List TextUnit) : failure? d us = none := by
  induction us generalizing d with
  | nil => rfl
  | cons u us ih =>
    obtain ⟨d', hd⟩ : ∃ d', push d u = (d', .ok none) := ⟨_, Prod.ext rfl (hc d u)⟩
    rw [failure?, hd]
    exact congrArg (Option.map _) (ih d')

/-- A consumer that fails to take no unit has taken all. -/
theorem taken_pushAll_of_none {taken : σ → List TextUnit} (hr : Records taken) {d : σ}
    {us : List TextUnit} (h : failure? d us = none) : taken (pushAll d us) = taken d ++ us := by
  induction us generalizing d with
  | nil => exact (List.append_nil _).symm
  | cons u us ih =>
    rw [failure?] at h
    split at h
    · cases h
    · next d' answer hp =>
      have ht := hr.taken_push d u answer (congrArg Prod.snd hp)
      rw [hp] at ht
      rw [pushAll, List.foldl_cons, hp]
      rw [Option.map_eq_none_iff] at h
      exact (ih h).trans (by rw [ht, List.append_assoc, List.singleton_append])

/-- A consumer that fails to take a unit has taken those before it. -/
theorem taken_pushAll_of_some {taken : σ → List TextUnit} (hr : Records taken) {d : σ}
    {us : List TextUnit} {i : Nat} {reason : String} (h : failure? d us = some (i, reason)) :
    taken (pushAll d (us.take (i + 1))) = taken d ++ us.take i := by
  induction us generalizing d i with
  | nil => cases h
  | cons u us ih =>
    rw [failure?] at h
    split at h
    · next d' reason' hp =>
      have ht := hr.taken_push_error d u reason' (congrArg Prod.snd hp)
      obtain ⟨rfl, -⟩ := Prod.mk.inj (Option.some.inj h)
      exact ht.trans (List.append_nil _).symm
    · next d' answer hp =>
      have ht := hr.taken_push d u answer (congrArg Prod.snd hp)
      rw [hp] at ht
      obtain ⟨⟨j, reason'⟩, hj, he⟩ := Option.map_eq_some_iff.mp h
      obtain ⟨rfl, rfl⟩ := Prod.mk.inj he
      rw [List.take_succ_cons, List.take_succ_cons, pushAll, List.foldl_cons, hp]
      exact (ih hj).trans (by rw [ht, List.append_assoc, List.singleton_append])

/-- A calm consumer has taken all the units that it was handed. -/
theorem taken_pushAll {taken : σ → List TextUnit} (hr : Records taken) (hc : Calm σ) (d : σ)
    (us : List TextUnit) : taken (pushAll d us) = taken d ++ us :=
  taken_pushAll_of_none hr (failure?_of_calm hc d us)

end Downstream

namespace Collector

/-- A collector keeps what it takes. -/
theorem records : Downstream.Records fun c : Collector ↦ c.units.toList where
  taken_push _ _ _ _ := Array.toList_push
  taken_push_error _ _ _ h := nomatch h
  taken_offer _ := rfl
  taken_announce _ _ := rfl
  taken_notify _ _ := rfl

/-- A collector takes every unit and lets go of it at once. -/
theorem calm : Downstream.Calm Collector := fun _ _ ↦ rfl

end Collector

namespace Stage

/-- A consumer with set habits keeps what it takes. -/
theorem records : Downstream.Records fun d : Stage ↦ d.units.toList where
  taken_push d u e h := by
    change (d.push u).2 = _ at h
    change (d.push u).1.units.toList = _
    rw [push] at h ⊢
    split
    · next hf =>
      rw [if_pos hf] at h
      cases h
    · exact Array.toList_push
  taken_push_error d u reason h := by
    change (d.push u).2 = _ at h
    change (d.push u).1.units.toList = _
    rw [push] at h ⊢
    split
    · rfl
    · next hf =>
      rw [if_neg hf] at h
      cases h
  taken_offer d := rfl
  taken_announce d c := by
    change (if d.plain = true then (d, true) else _).1.units.toList = _
    split <;> rfl
  taken_notify d e := by
    change (if d.plain = true then (d, true) else _).1.units.toList = _
    split <;> rfl

/-- A consumer with set habits keeps them. -/
theorem closed (Q : List Nat → Option Signal → Prop) :
    Downstream.Closed fun d : Stage ↦ Q d.failures d.raises where
  of_push d u h := by
    change Q (d.push u).1.failures (d.push u).1.raises
    rw [push]
    split <;> exact h
  of_offer d h := h
  of_announce d c h := by
    change (fun d : Stage ↦ Q d.failures d.raises) (if d.plain = true then (d, true) else _).1
    split <;> exact h
  of_notify d e h := by
    change (fun d : Stage ↦ Q d.failures d.raises) (if d.plain = true then (d, true) else _).1
    split <;> exact h

/-- A consumer of which no push is to fail takes every unit. -/
theorem willing : Downstream.Willing fun d : Stage ↦ d.failures = [] where
  toClosed := closed fun failures _ ↦ failures = []
  push_ok d u h := by
    have hn : ¬ d.failures.contains (d.pushes + 1) = true := by
      rw [h]
      exact Bool.false_ne_true
    change ∃ answer, (d.push u).2 = .ok answer
    rw [push, if_neg hn]
    exact ⟨_, rfl⟩

/-- A consumer that is to raise no signal raises none. -/
theorem reticent : Downstream.Reticent fun d : Stage ↦ d.raises = none where
  toClosed := closed fun _ raises ↦ raises = none
  push_ne d u e h := by
    change (d.push u).2 ≠ .ok (some e)
    rw [push]
    split
    · exact nofun
    · dsimp only
      rw [h, ite_self]
      exact nofun

end Stage

namespace Link

open Downstream (Records Closed Willing Reticent Calm pushAll failure?_of_calm)

variable {δ σ : Type} [Downstream σ]

/-- Negotiating hands over no unit. -/
theorem taken_negotiate {taken : σ → List TextUnit} (hr : Records taken) (l : Link δ σ)
    (c : Caps) : taken (l.negotiate c).1.downstream = taken l.downstream := by
  simp only [negotiate]
  split
  · rfl
  · split
    · rfl
    · split
      · exact hr.taken_offer _
      · exact (hr.taken_announce _ _).trans (hr.taken_offer _)

/-- Negotiating touches nothing of a stream but its format, and that only while it has none. -/
theorem stream_negotiate (l : Link δ σ) (c : Caps) :
    (l.negotiate c).1.stream = l.stream ∨
      l.stream.format = none ∧
        ∃ f, (l.negotiate c).1.stream = { l.stream with format := some f } := by
  simp only [negotiate]
  split
  · exact .inl rfl
  · next hf =>
    split
    · exact .inl rfl
    · split
      · exact .inl rfl
      · exact .inr ⟨by simpa using hf, _, rfl⟩

/-- A negotiation hands over no unit that could be refused. -/
theorem negotiate_ne_refused (l : Link δ σ) (c : Caps) (reason : String) :
    (l.negotiate c).2 ≠ .error (.refused reason) := by
  rw [negotiate]
  split
  · exact nofun
  · split
    · exact nofun
    · dsimp only
      split <;> exact nofun

variable [CaptionDecoder δ]

/-- A delivery changes a stream only through the signals that it answers, so what these keep is
kept by every delivery to any consumer. -/
theorem stream_deliver {P : Stream δ → Prop} (hP : ∀ s e, P s → P (s.raise e).1) {s : Stream δ}
    (hs : P s) (d : σ) (answer : Bool) (agenda : List Delivery) :
    P (deliver s d answer agenda).1.stream := by
  fun_induction deliver s d answer agenda with
  | case1 s d answer => exact hs
  | case2 s d answer e rest d' answer' h ih => exact ih hs
  | case3 s d answer u rest d' reason h => exact hs
  | case4 s d answer u rest d' h ih => exact ih hs
  | case5 s d answer u rest d' e h ih => exact ih (hP s e hs)

/-- A consumer does not leave closed states over a delivery. -/
theorem closed_deliver {P : σ → Prop} (hp : Closed P) (s : Stream δ) {d : σ} (hd : P d)
    (answer : Bool) (agenda : List Delivery) : P (deliver s d answer agenda).1.downstream := by
  fun_induction deliver s d answer agenda with
  | case1 s d answer => exact hd
  | case2 s d answer e rest d' answer' h ih =>
    have hn := hp.of_notify d e hd
    rw [h] at hn
    exact ih hn
  | case3 s d answer u rest d' reason h =>
    have hn := hp.of_push d u hd
    rw [h] at hn
    exact hn
  | case4 s d answer u rest d' h ih =>
    have hn := hp.of_push d u hd
    rw [h] at hn
    exact ih hn
  | case5 s d answer u rest d' e h ih =>
    have hn := hp.of_push d u hd
    rw [h] at hn
    exact ih hn

/-- A consumer does not leave closed states over a call. -/
theorem closed_call {P : σ → Prop} (hp : Closed P) {l : Link δ σ} (hd : P l.downstream)
    (c : Call) : P (l.call c).1.downstream := by
  cases c with
  | unit u =>
    simp only [call, accept]
    split
    · exact hd
    · exact closed_deliver hp _ hd _ _
  | caps c =>
    simp only [call, negotiate]
    split
    · exact hd
    · split
      · exact hd
      · split
        · exact hp.of_offer _ hd
        · exact hp.of_announce _ _ (hp.of_offer _ hd)
  | signal e => exact closed_deliver hp _ hd _ _
  | transition t =>
    rw [call, transit]
    split <;> exact hd

/-- A consumer does not leave closed states over a run of calls. -/
theorem closed_run {P : σ → Prop} (hp : Closed P) {l : Link δ σ} (hd : P l.downstream)
    (calls : List Call) : P (l.run calls).downstream := by
  induction calls generalizing l with
  | nil => exact hd
  | cons c calls ih => exact ih (closed_call hp hd c)

/-- A reticent consumer is handed units one after the other up to the first that it fails to
take, and the failure is all that comes of the delivery then. -/
theorem deliver_units_of_reticent {P : σ → Prop} (hp : Reticent P) (s : Stream δ) {d : σ}
    (hd : P d) (answer : Bool) (us : List TextUnit) (rest : List Delivery) :
    deliver s d answer (us.map .unit ++ rest) =
      match Downstream.failure? d us with
      | none => deliver s (pushAll d us) answer rest
      | some (i, reason) => (⟨s, pushAll d (us.take (i + 1))⟩, .error (.refused reason)) := by
  induction us generalizing d with
  | nil => rfl
  | cons u us ih =>
    have hn := hp.of_push d u hd
    have hne := hp.push_ne d u
    rw [List.map_cons, List.cons_append, deliver, Downstream.failure?]
    cases hq : Downstream.push d u with
    | mk d' result =>
      rw [hq] at hn hne
      have hall : ∀ us, pushAll d (u :: us) = pushAll d' us := by
        intro us
        rw [pushAll, List.foldl_cons, hq]
        rfl
      cases result with
      | error reason =>
        dsimp only
        rw [List.take_succ_cons, hall]
        rfl
      | ok raised =>
        cases raised with
        | some e => exact absurd rfl (hne e hd)
        | none =>
          dsimp only
          rw [ih hn]
          cases Downstream.failure? d' us with
          | none =>
            dsimp only [Option.map]
            rw [hall]
          | some failure =>
            obtain ⟨i, reason⟩ := failure
            dsimp only [Option.map]
            rw [List.take_succ_cons, hall]

/-- A calm consumer is handed units one after the other. -/
theorem deliver_units (hc : Calm σ) (s : Stream δ) (d : σ) (answer : Bool) (us : List TextUnit)
    (rest : List Delivery) :
    deliver s d answer (us.map .unit ++ rest) = deliver s (pushAll d us) answer rest := by
  rw [deliver_units_of_reticent hc.reticent s trivial, failure?_of_calm hc]

/-- A calm consumer is handed the units that a unit of the stream completes. -/
theorem accept_of_ok (hc : Calm σ) (l : Link δ σ) (u : CaptionUnit) {s : Stream δ}
    {us : List TextUnit} (h : l.stream.accept u = .ok (s, us)) :
    l.accept u = (⟨s, pushAll l.downstream us⟩, .ok ()) := by
  have hd := deliver_units hc s l.downstream true us []
  rw [List.append_nil, deliver] at hd
  simp only [accept, h, hd, Except.map]

/-- A unit that stops the stream leaves everything as it was. -/
theorem accept_of_error (l : Link δ σ) (u : CaptionUnit) {e : StreamError}
    (h : l.stream.accept u = .error e) : l.accept u = (l, .error e) := by
  simp only [accept, h]

/-- A unit that completes nothing reaches no consumer. -/
theorem accept_of_silent {l : Link δ σ} {u : CaptionUnit} {s : Stream δ}
    (h : l.stream.accept u = .ok (s, [])) : l.accept u = (⟨s, l.downstream⟩, .ok ()) := by
  simp only [accept, h, List.map_nil, deliver, Except.map]

/-- A flush delivers nothing but itself. -/
theorem signal_flush (l : Link δ σ) :
    (l.signal .flush).1 = ⟨l.stream.flush, (Downstream.notify l.downstream .flush).1⟩ := by
  simp only [signal, Stream.raise, deliver]

/-- At the end a calm consumer is handed the last cue before it hears of the end. -/
theorem signal_finish (hc : Calm σ) (l : Link δ σ) :
    l.signal .finish =
      (⟨l.stream.drain.1, (Downstream.notify (pushAll l.downstream l.stream.drain.2) .finish).1⟩,
        .ok (Downstream.notify (pushAll l.downstream l.stream.drain.2) .finish).2) := by
  simp only [signal, Stream.raise, deliver_units hc, deliver]

end Link

end Line21
