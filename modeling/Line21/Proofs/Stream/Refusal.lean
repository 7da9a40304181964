import Line21.Proofs.Conversion.Cues
import Line21.Proofs.Receiver.Quiet
import Line21.Proofs.Source.Stamps
import Line21.Proofs.Stream.Noise

/-!
# Units that are refused or dropped

A stream looks at a unit before it does anything: at the format agreed upon, at the time of the unit
and at whether it can be put in seconds. Main statement: in every state these are the only reasons
for a refusal, and a unit that is refused, as one that is too short or has lost its parity, leaves
no trace. The receiver itself gives no reason to stop, since a caption that it reports can be read.
-/

namespace Line21

private theorem CaptionUnit.fault?_eq_some_iff {u : CaptionUnit} {e : StreamError} :
    u.fault? = some e ↔
      (u.time = none ∧ e = .missingTime) ∨
        2 ≤ u.data.length ∧ (∃ time, u.time = some time ∧ timeLimit ≤ time.natAbs) ∧
          e = .number .quotientRange := by
  cases ht : u.time with
  | none =>
    rw [fault?_of_untimed ht]
    simp [eq_comm]
  | some time =>
    by_cases hr : u.data.length < 2 ∨ TimeInRange time
    · rw [fault?_of_timed ht hr]
      rw [timeInRange_iff] at hr
      refine ⟨nofun, ?_⟩
      rintro (⟨hn, -⟩ | ⟨hl, ⟨_, he, hfar⟩, -⟩)
      · cases hn
      · obtain rfl := Option.some.inj he
        omega
    · obtain ⟨hl, hr⟩ := not_or.mp hr
      rw [fault?_of_out_of_range ht (not_lt.mp hl) hr]
      rw [timeInRange_iff] at hr
      simp [not_lt.mp hl, not_lt.mp hr, eq_comm]

private theorem Receiver.exists_render_of_decode_shown {r r' : Receiver} {p : BytePair}
    {seconds : Rat} (h : CaptionDecoder.decode r p seconds = (r', .ok .shown)) :
    ∃ text, CaptionDecoder.render r' = .ok text := by
  cases hr : r.receive p with
  | error e =>
    rw [CaptionDecoder.decode_of_receive_error hr] at h
    cases h
  | ok heard =>
    rw [CaptionDecoder.decode_of_receive_ok hr] at h
    obtain ⟨rfl, hm⟩ := Prod.mk.inj h
    obtain hm : heard.2 = .shown := Except.ok.inj hm
    exact ⟨heard.1.shown.text, text_of_receive_shown (hr.trans (by rw [← hm]))⟩

namespace Stream

variable {δ : Type} [CaptionDecoder δ]

private theorem accept_eq_error_iff_of_any {s : Stream δ} {u : CaptionUnit} {e : StreamError} :
    s.accept u = .error e ↔
      (s.format = none ∧ e = .notNegotiated) ∨ s.format ≠ none ∧ u.fault? = some e := by
  cases hf : s.format with
  | none => simp [accept, hf, eq_comm]
  | some f => simp [accept_eq_error_iff hf]

end Stream

namespace Link

variable {δ σ : Type} [CaptionDecoder δ] [Downstream σ]

/-- A delivery fails only at a unit that the consumer does not take, for the consumer's reason. -/
theorem exists_push_of_deliver {s : Stream δ} {d : σ} {answer : Bool} {agenda : List Delivery}
    {e : StreamError} (h : (deliver s d answer agenda).2 = .error e) :
    ∃ (d' : σ) (v : TextUnit) (reason : String),
      (Downstream.push d' v).2 = .error reason ∧ e = .refused reason := by
  fun_induction deliver s d answer agenda with
  | case1 s d answer => cases h
  | case2 s d answer _ rest d' answer' _ ih => exact ih h
  | case3 s d answer u rest d' reason hp =>
    exact ⟨d, u, reason, congrArg Prod.snd hp, (Except.error.inj h).symm⟩
  | case4 s d answer u rest d' _ ih => exact ih h
  | case5 s d answer u rest d' _ _ ih => exact ih h

private theorem accept_eq_error_cases {l : Link δ σ} {u : CaptionUnit} {e : StreamError}
    (h : (l.accept u).2 = .error e) :
    l.stream.accept u = .error e ∨
      ∃ (d : σ) (v : TextUnit) (reason : String),
        (Downstream.push d v).2 = .error reason ∧ e = .refused reason := by
  rw [accept] at h
  split at h
  · next e' ha =>
    obtain rfl := Except.error.inj h
    exact .inl ha
  · next s us ha =>
    dsimp only at h
    cases hd : (deliver s l.downstream true (us.map .unit)).2 with
    | ok answer =>
      rw [hd] at h
      cases h
    | error e' =>
      rw [hd] at h
      obtain rfl := Except.error.inj h
      exact .inr (exists_push_of_deliver hd)

/-- A unit is refused before anything is delivered for one of three reasons: there is no format, or
else the unit has no time, or else it holds a pair and its time is as far off as the limit. Then all
stays as it was, the receiver included. Otherwise the call can only fail at a unit that the consumer
does not take. A unit with a time that holds no pair, or one without its parity, is passed over and
leaves all as it was. When a pair is reported as a caption, there is a text to read. -/
theorem refused_units_leave_no_trace (l : Link Receiver σ) (u : CaptionUnit) :
    (∀ e, l.stream.accept u = .error e ↔
      (l.stream.format = none ∧ e = .notNegotiated) ∨
      (l.stream.format ≠ none ∧ u.time = none ∧ e = .missingTime) ∨
      (l.stream.format ≠ none ∧ 2 ≤ u.data.length ∧
        (∃ time, u.time = some time ∧ timeLimit ≤ time.natAbs) ∧ e = .number .quotientRange)) ∧
    (∀ e, l.stream.accept u = .error e → l.accept u = (l, .error e)) ∧
    (∀ e, (l.accept u).2 = .error e →
      l.stream.accept u = .error e ∨
        ∃ (d : σ) (v : TextUnit) (reason : String),
          (Downstream.push d v).2 = .error reason ∧ e = .refused reason) ∧
    (∀ time, l.stream.format ≠ none → u.time = some time →
      (u.data.length < 2 ∨
        time.natAbs < timeLimit ∧ ∃ p, u.pair? = some p ∧ p.parityHolds = false) →
      l.stream.accept u = .ok (l.stream, []) ∧ l.accept u = (l, .ok ())) ∧
    ∀ (p : BytePair) (seconds : Rat) (r : Receiver),
      CaptionDecoder.decode l.stream.decoder p seconds = (r, .ok .shown) →
        ∃ text, CaptionDecoder.render r = .ok text := by
  refine ⟨fun e ↦ ?_, fun e ↦ accept_of_error l u, fun e ↦ accept_eq_error_cases,
    fun time hf ht h ↦ ?_, fun p seconds r ↦ Receiver.exists_render_of_decode_shown⟩
  · rw [Stream.accept_eq_error_iff_of_any, CaptionUnit.fault?_eq_some_iff, and_or_left]
  · obtain ⟨f, hf⟩ := Option.ne_none_iff_exists'.mp hf
    have ha : l.stream.accept u = .ok (l.stream, []) := by
      rcases h with hl | ⟨hr, p, hp, hparity⟩
      · exact Stream.accept_of_short hf ht hl
      · exact Stream.accept_of_corrupt hf ⟨time, ht, timeInRange_iff.mpr hr⟩ hp hparity
    exact ⟨ha, accept_of_silent ha⟩

end Link

end Line21
