import Line21.Proofs.Conversion.Cues
import Line21.Proofs.Service.Calls
import Mathlib.Algebra.Ring.Int.Defs

/-!
# What comes of a push

A push to a stream that is there ends in one of three ways, and its unit alone decides which. A unit
without a time stops the stream, which is refused and removed. A unit that holds a pair, at a time
that is no number of seconds, is not worked out: no answer comes of it, and the stream stays. Every
other unit is taken in and answered.
-/

namespace Line21

namespace Service

variable {s : Session} {format : Format} {now : Int} {u : CaptionUnit}

private theorem pass_of_fault?_eq_none (hf : s.link.stream.format = some format)
    (h : u.fault? = none) :
    ∃ s' us, pass s now (.unit u) = (some s', .success 200 (.units s.id us)) := by
  obtain ⟨stream, us, ha⟩ := Stream.exists_accept hf h
  rw [pass, Link.call, Link.accept_of_ok Collector.calm s.link u ha]
  exact ⟨_, _, rfl⟩

private theorem pass_of_fault? (hf : s.link.stream.format = some format) {e : StreamError}
    (h : u.fault? = some e) :
    pass s now (.unit u) =
      settle { s with updated := now, unitsIn := s.unitsIn + 1 } (.error e) := by
  rw [pass, Link.call, Link.accept_of_error s.link u ((Stream.accept_eq_error_iff hf).mpr h)]
  rfl

/-- After requests of any kind, a push comes to a stream that is there. Without a time it is
refused, and the stream is there no more, but has left and started over. With a time it is answered
with units and the stream is there, unless it holds a pair and its time is out of the range of
binary64 numbers in seconds. Then it is neither answered nor refused, and the stream stays as it
was, except that the push is counted. -/
theorem outcome_of_push (timeToLive limit : Int) {requests : List (Int × Request)} {id : String}
    {body : Json} (hs : (run { timeToLive, limit } requests).find? id = some s)
    (hu : body.captionUnit? = some u) (now : Int) :
    let after := handle (run { timeToLive, limit } requests) now (.push id body)
    (u.time = none →
      after.2 = .refusal 422 StreamError.missingTime.message ∧ after.1.find? id = none ∧
        id ∈ after.1.left.map Session.id ∧
        ∀ x ∈ after.1.left, x.id = id → x.link.stream = .fresh) ∧
      (∀ time, u.time = some time → (u.data.length < 2 ∨ TimeInRange time) →
        (∃ us, after.2 = .success 200 (.units id us)) ∧ (after.1.find? id).isSome) ∧
      ∀ time, u.time = some time → 2 ≤ u.data.length → ¬ TimeInRange time →
        after.2 = .fault .quotientRange ∧
          after.1.find? id = some { s with updated := now, unitsIn := s.unitsIn + 1 } := by
  intro after
  have hsound := sound_run (Store.sound_empty timeToLive limit) requests
  have hformat := hsound.agreed s (Store.mem_of_find? hs)
  have hcall : (Request.push id body).call? = some (.unit u) := congrArg (Option.map _) hu
  have hpass : after.2 = (pass s now (.unit u)).2 ∧
      after.1.find? id = (pass s now (.unit u)).1 := handle_of_call rfl hs hcall now
  obtain ⟨hanswer, hfind⟩ := hpass
  refine ⟨?_, ?_, ?_⟩
  · intro ht
    have hshifts : (run { timeToLive, limit } requests).Shifts after.1 := shifts_handle rfl now
    rw [pass_of_fault? hformat (CaptionUnit.fault?_of_untimed ht)] at hanswer hfind
    refine ⟨hanswer, hfind, ?_, fun x hx _ ↦ (hshifts.sound hsound).restarted x hx⟩
    have hid : id ∈ (run { timeToLive, limit } requests).live.map Session.id :=
      Store.isSome_find?_iff.mp (Option.isSome_of_eq_some hs)
    apply (hshifts.exists_mem_left hid).resolve_left
    intro hlives
    have hsome := Store.isSome_find?_iff.mpr hlives
    rw [hfind] at hsome
    cases hsome
  · intro time ht hr
    obtain ⟨s', us, hp⟩ := pass_of_fault?_eq_none hformat (CaptionUnit.fault?_of_timed ht hr)
    rw [hp, Store.id_of_find? hs] at hanswer
    rw [hp] at hfind
    exact ⟨⟨us, hanswer⟩, Option.isSome_of_eq_some hfind⟩
  · intro time ht hl hr
    rw [pass_of_fault? hformat (CaptionUnit.fault?_of_out_of_range ht hl hr)] at hanswer hfind
    exact ⟨hanswer, hfind⟩

/-- A time of 321 digits is out of range. Its push is counted and not answered, and the stream is
still there, whereas a push without a time is refused and takes the stream away. -/
theorem outcome_of_push_out_of_range :
    let requests : List (Int × Request) := [(0, .create "a" (.object [("format", .string "vtt")]))]
    let store := run {} requests
    let body (pts : Json) : Json := .object [("data", .string "9429"), ("pts", pts)]
    ((handle store 1 (.push "a" (body (.int (10 ^ 320))))).2 = .fault .quotientRange ∧
        (handle store 1 (.push "a" (body (.int (10 ^ 320))))).1.find? "a" =
          some { Session.opened "a" .webVtt 0 with updated := 1, unitsIn := 1 }) ∧
      (handle store 1 (.push "a" (body .null))).2 =
          .refusal 422 "Data unit has no presentation timestamp" ∧
        (handle store 1 (.push "a" (body .null))).1.find? "a" = none := by
  intro requests store body
  have hs : store.find? "a" = some (.opened "a" .webVtt 0) := rfl
  have hlate : (body (.int (10 ^ 320))).captionUnit? = some ⟨[0x94, 0x29], some (10 ^ 320)⟩ := by
    decide +kernel
  have huntimed : (body .null).captionUnit? = some ⟨[0x94, 0x29], none⟩ := by decide
  obtain ⟨-, -, hfault⟩ := outcome_of_push 3600 100 hs hlate 1
  obtain ⟨hrefused, -, -⟩ := outcome_of_push 3600 100 hs huntimed 1
  obtain ⟨hanswer, hgone, -⟩ := hrefused rfl
  exact ⟨hfault (10 ^ 320) rfl (by decide) (by decide +kernel), hanswer, hgone⟩

end Service

end Line21
