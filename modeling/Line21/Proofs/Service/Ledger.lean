import Line21.Proofs.Service.Calls
import Line21.Proofs.Stream.Failure
import Mathlib.Algebra.Ring.Int.Defs
import Mathlib.Data.List.Induction

/-!
# The ledger of a stream

The ledger of a stream holds the requests about it and their answers. Main statement: for as long
as a session lives, its counters and the units in its ledger agree, and these units are those that
its stream writes on the calls in the ledger. Nothing waits in the session between two requests,
so a flush is answered with no units.
-/

namespace Line21

open Downstream (failure?_of_calm)

/-- The units that an answer hands over. -/
def Response.units : Response → List TextUnit
  | .success _ (.units _ us) => us
  | _ => []

private theorem Request.call?_ne_caps {r : Request} {c : Call} (h : r.call? = some c)
    (caps : Caps) :
    c ≠ .caps caps := by
  rintro rfl
  cases r with
  | push _ body =>
    obtain ⟨u, -, he⟩ := Option.map_eq_some_iff.mp h
    cases he
  | _ => cases h

/-! ### Calls to a collector -/

namespace Link

variable {δ : Type} [CaptionDecoder δ]

/-- A collector takes what a call gives out. -/
theorem units_call (l : Link δ Collector) (c : Call) :
    (l.call c).1.downstream.units.toList = l.downstream.units.toList ++ l.stream.given c := by
  have h := (handsOver_call Collector.records Collector.calm.reticent (l := l) trivial c).taken_eq
  rwa [failure?_of_calm Collector.calm, Option.elim_none, List.take_length] at h

private theorem stream_call_congr {l l' : Link δ Collector} (h : l.stream = l'.stream) {c : Call}
    (hc : ∀ caps, c ≠ .caps caps) : (l.call c).1.stream = (l'.call c).1.stream := by
  obtain ⟨s, d⟩ := l
  obtain ⟨s', d'⟩ := l'
  subst h
  apply stream_call_eq Collector.calm.reticent Collector.calm.reticent trivial trivial
  cases c with
  | caps caps => exact absurd rfl (hc caps)
  | _ => trivial

/-- A unit or a signal that fails gives nothing out. -/
theorem given_of_error {l : Link δ Collector} {c : Call} (hc : ∀ caps, c ≠ .caps caps)
    {e : StreamError} (h : (l.call c).2 = .error e) : l.stream.given c = [] := by
  cases c with
  | unit u =>
    cases ha : l.stream.accept u with
    | error e => rw [Stream.given, ha]
    | ok r =>
      rw [call, accept_of_ok Collector.calm l u ha] at h
      cases h
  | caps caps => exact absurd rfl (hc caps)
  | signal e =>
    cases e with
    | flush => rfl
    | finish =>
      rw [call, signal_finish Collector.calm] at h
      cases h
  | transition t => rfl

end Link

namespace Service

/-! ### The ledger -/

/-- The requests about the stream of an id, each with its answer. -/
def ledger (id : String) (store : Store) (requests : List (Int × Request)) :
    List (Request × Response) :=
  (Request.about id requests).zip (answersTo id store requests)

/-- The units that are handed over in a ledger, in order. -/
def delivered (ledger : List (Request × Response)) : List TextUnit := ledger.flatMap (·.2.units)

/-- The call of a request that found its stream. -/
def reached? (id : String) (exchange : Request × Response) : Option Call :=
  if exchange.2 = notFound id then none else exchange.1.call?

/-- The calls of the requests that found their stream, in order. -/
def reached (id : String) (ledger : List (Request × Response)) : List Call :=
  ledger.filterMap (reached? id)

/-- A session has handed over, counted and cleared away what its stream wrote on the calls that
reached it. -/
structure Balanced (s : Session) (ledger : List (Request × Response)) : Prop where
  /-- No unit waits to be handed over. -/
  drained : s.link.downstream.units = #[]
  /-- The units handed over are counted. -/
  unitsOut_eq : s.unitsOut = (delivered ledger).length
  /-- The units pushed are counted. -/
  unitsIn_eq : s.unitsIn = (reached s.id ledger).countP Call.isUnit
  /-- The stream is that of a link which the calls have reached. -/
  stream_eq : s.link.stream = ((Link.opened s.format).run (reached s.id ledger)).stream
  /-- The units handed over are those that this link has collected. -/
  delivered_eq : delivered ledger =
    ((Link.opened s.format).run (reached s.id ledger)).downstream.units.toList

section Ledger

variable {store : Store} {id : String} {requests : List (Int × Request)} {now : Int} {r : Request}
  {s s' : Session} {entries : List (Request × Response)} {response : Response}

/-- A request about another stream is no entry. -/
theorem ledger_concat_of_ne (hr : r.id? ≠ some id) :
    ledger id store (requests ++ [(now, r)]) = ledger id store requests := by
  have ha : Request.about id [(now, r)] = [] := by rw [Request.about_cons, if_neg hr]; rfl
  rw [ledger, Request.about_append, answersTo_append, ha, answersTo, if_neg hr]
  simp [ledger, answersTo]

/-- A request about the stream is the next entry. -/
theorem ledger_concat (hr : r.id? = some id) :
    ledger id store (requests ++ [(now, r)]) =
      ledger id store requests ++ [(r, (handle (run store requests) now r).2)] := by
  have ha : Request.about id [(now, r)] = [r] := by rw [Request.about_cons, if_pos hr]; rfl
  rw [ledger, Request.about_append, answersTo_append, ha, answersTo, if_pos hr, answersTo,
    List.zip_append (length_answersTo id store requests).symm]
  rfl

private theorem delivered_concat :
    delivered (entries ++ [(r, response)]) = delivered entries ++ response.units := by
  simp [delivered]

private theorem reached_concat :
    reached id (entries ++ [(r, response)]) =
      reached id entries ++ (reached? id (r, response)).toList := by
  cases h : reached? id (r, response) <;> simp [reached, h]

/-- An entry without units and without a call leaves the balance. -/
theorem Balanced.idle (h : Balanced s entries) (hu : response.units = [])
    (hc : r.call? = none) : Balanced s (entries ++ [(r, response)]) := by
  have hd : delivered (entries ++ [(r, response)]) = delivered entries := by
    rw [delivered_concat, hu, List.append_nil]
  have hr : reached s.id (entries ++ [(r, response)]) = reached s.id entries := by
    rw [reached_concat, reached?, hc, ite_self]
    exact List.append_nil _
  constructor
  · exact h.drained
  · rw [hd, h.unitsOut_eq]
  · rw [hr, h.unitsIn_eq]
  · rw [hr, h.stream_eq]
  · rw [hd, hr, h.delivered_eq]

private theorem units_settle_error (s : Session) (e : StreamError) :
    (settle s (.error e)).2.units = [] := by
  cases e with
  | number error => rfl
  | notNegotiated | missingTime | refused _ | offer _ =>
    simp only [settle]
    split <;> rfl

private theorem settle_error_eq_some {e : StreamError} (h : (settle s (.error e)).1 = some s') :
    s' = s ∧ ∀ id, (settle s (.error e)).2 ≠ notFound id := by
  cases e with
  | number error =>
    obtain rfl := Option.some.inj h
    refine ⟨rfl, ?_⟩
    rintro id ⟨⟩
  | notNegotiated | missingTime | refused _ | offer _ =>
    simp only [settle] at h ⊢
    split at h
    · cases h
    · next hf =>
      obtain rfl := Option.some.inj h
      refine ⟨rfl, ?_⟩
      rw [if_neg hf]
      rintro id ⟨⟩

/-- A session for which no unit waits answers a call with what its stream gives out on it. -/
theorem units_pass (hd : s.link.downstream.units = #[]) {c : Call}
    (hc : ∀ caps, c ≠ .caps caps) : (pass s now c).2.units = s.link.stream.given c := by
  have hu := s.link.units_call c
  rw [hd, List.nil_append] at hu
  rw [pass]
  cases hr : (s.link.call c).2 with
  | ok _ => exact hu
  | error e =>
    rw [Link.given_of_error hc hr]
    exact units_settle_error _ e

private theorem pass_eq_some (hd : s.link.downstream.units = #[]) {c : Call}
    (hc : ∀ caps, c ≠ .caps caps) (hs : (pass s now c).1 = some s') :
    (s'.id = s.id ∧ s'.format = s.format ∧ s'.link.stream = (s.link.call c).1.stream) ∧
      s'.link.downstream.units = #[] ∧ s'.unitsIn = s.unitsIn + c.isUnit.toNat ∧
      s'.unitsOut = s.unitsOut + (s.link.stream.given c).length ∧
      (pass s now c).2 ≠ notFound s.id := by
  have hu := s.link.units_call c
  rw [hd, List.nil_append] at hu
  rw [pass] at hs ⊢
  cases hr : (s.link.call c).2 with
  | ok _ =>
    rw [hr] at hs
    obtain rfl := Option.some.inj hs
    refine ⟨⟨rfl, rfl, rfl⟩, rfl, rfl, ?_, ?_⟩
    · exact congrArg (fun us : List TextUnit ↦ s.unitsOut + us.length) hu
    · rintro ⟨⟩
  | error e =>
    rw [Link.given_of_error hc hr] at hu ⊢
    have hempty : (s.link.call c).1.downstream.units = #[] := Array.toList_eq_nil_iff.mp hu
    rw [hr] at hs
    obtain ⟨rfl, hfound⟩ := settle_error_eq_some hs
    exact ⟨⟨rfl, rfl, rfl⟩, hempty, rfl, rfl, hfound s.id⟩

/-- A call that reaches a session in balance leaves it in balance, if it goes on. -/
theorem Balanced.pass (h : Balanced s entries) {c : Call} (hr : r.call? = some c)
    (hs : (pass s now c).1 = some s') :
    Balanced s' (entries ++ [(r, (Service.pass s now c).2)]) := by
  have hc := Request.call?_ne_caps hr
  have hunits : (Service.pass s now c).2.units = s.link.stream.given c := units_pass h.drained hc
  obtain ⟨⟨hid, hformat, hstream⟩, hdrained, hin, hout, hfound⟩ := pass_eq_some h.drained hc hs
  -- A link that is never cleared away goes through the same calls.
  have hreached : reached s.id (entries ++ [(r, (Service.pass s now c).2)]) =
      reached s.id entries ++ [c] := by
    rw [reached_concat, reached?, if_neg hfound, hr]
    rfl
  have hrun : (Link.opened s.format).run (reached s.id entries ++ [c]) =
      (((Link.opened s.format).run (reached s.id entries)).call c).1 := by
    rw [Link.run_append]
    rfl
  have hcollected := ((Link.opened s.format).run (reached s.id entries)).units_call c
  rw [← h.stream_eq, ← h.delivered_eq] at hcollected
  constructor
  · exact hdrained
  · rw [hout, h.unitsOut_eq, delivered_concat, hunits, List.length_append]
  · rw [hid, hin, h.unitsIn_eq, hreached, List.countP_append, List.countP_singleton]
    cases c.isUnit <;> rfl
  · rw [hid, hformat, hstream, hreached, hrun]
    exact Link.stream_call_congr h.stream_eq hc
  · rw [hid, hformat, hreached, hrun, delivered_concat, hunits, hcollected]

/-- A request about a session in balance leaves it in balance, if it goes on. -/
theorem Balanced.respond (h : Balanced s entries) (hs : (respond s now r).1 = some s') :
    Balanced s' (entries ++ [(r, (Service.respond s now r).2)]) := by
  have hcall (hs : (pass? s now r.call?).1 = some s') :
      Balanced s' (entries ++ [(r, (pass? s now r.call?).2)]) := by
    cases hc : r.call? with
    | none =>
      rw [hc] at hs
      obtain rfl := Option.some.inj hs
      exact h.idle rfl hc
    | some c =>
      rw [hc] at hs
      exact h.pass hc hs
  cases r with
  | get id =>
    obtain rfl := Option.some.inj hs
    have hi : Balanced s (entries ++ [(.get id, .success 200 (.stream (info s)))]) := h.idle rfl rfl
    exact ⟨hi.drained, hi.unitsOut_eq, hi.unitsIn_eq, hi.stream_eq, hi.delivered_eq⟩
  | delete _ => cases hs
  | _ => exact hcall hs

/-- A session that has just been made is in balance with entries that reached none. -/
theorem Balanced.opened (id : String) (format : Format) (now : Int)
    (hd : delivered entries = []) (hr : reached id entries = []) :
    Balanced (.opened id format now) entries := by
  have hempty : (Link.opened format).downstream.units = #[] := by cases format <;> rfl
  have hid : (Session.opened id format now).id = id := rfl
  constructor
  · exact hempty
  · rw [hd]
    rfl
  · rw [hid, hr]
    rfl
  · rw [hid, hr]
    rfl
  · rw [hid, hr, hd]
    exact (congrArg Array.toList hempty).symm

private theorem units_handle_create (store : Store) (now : Int) (id : String) (body : Json) :
    (handle store now (.create id body)).2.units = [] := by
  rw [handle]
  split
  · rfl
  · split <;> rfl

/-- A session that is found under a new id after a request for it has just been made, in balance
with entries that reached none. -/
theorem Balanced.of_create (h : store.find? id = none) {body : Json}
    (hs : (handle store now (.create id body)).1.find? id = some s)
    (hd : delivered entries = []) (hr : reached id entries = []) : Balanced s entries := by
  rcases handle_create_cases store now id body with he | ⟨format, -, he⟩
  · rw [he, h] at hs
    cases hs
  · rw [Store.find?_create he, h, if_pos rfl] at hs
    obtain rfl := Option.some.inj hs
    exact Balanced.opened id format now hd hr

/-- A request about a stream that is not there hands over nothing and reaches none. -/
theorem handle_of_absent (h : store.find? id = none) (hr : r.id? = some id)
    (hm : r.makes? = none) (now : Int) :
    (handle store now r).1.find? id = none ∧ (handle store now r).2.units = [] ∧
      reached? id (r, (handle store now r).2) = none := by
  rcases Request.asks_or_unread hr hm with ha | ⟨body, rfl, hb⟩
  · obtain ⟨hanswer, hfind⟩ := handle_of_find?_eq_none h now ha
    rw [hanswer]
    exact ⟨hfind, rfl, if_pos rfl⟩
  · have hc : (Request.push id body).call? = none := by rw [Request.call?, hb, Option.map_none]
    rw [handle_of_unread hb, reached?, hc, ite_self]
    exact ⟨h, rfl, rfl⟩

end Ledger

/-! ### The ledger over all requests -/

section Run

variable {timeToLive limit : Int} {id : String} {requests : List (Int × Request)}

/-- Before a stream is made its ledger holds nothing of note. -/
theorem ledger_of_unmade (timeToLive limit : Int) (h : id ∉ Request.made requests) :
    let start : Store := { timeToLive, limit }
    (run start requests).find? id = none ∧ delivered (ledger id start requests) = [] ∧
      reached id (ledger id start requests) = [] := by
  intro start
  induction requests using List.reverseRecOn with
  | nil => exact ⟨rfl, rfl, rfl⟩
  | append_singleton requests last ih =>
    obtain ⟨now, r⟩ := last
    rw [Request.made_append, Request.made_singleton, List.mem_append, not_or] at h
    obtain ⟨h, hlast⟩ := h
    obtain ⟨hfind, hdelivered, hreached⟩ := ih h
    rw [run_append]
    by_cases hr : r.id? = some id
    · have hm : r.makes? = none := by
        cases hm : r.makes? with
        | none => rfl
        | some id' =>
          obtain rfl : id' = id := Option.some.inj ((Request.id?_eq_of_makes? hm).symm.trans hr)
          exact absurd (Option.mem_toList.mpr hm) hlast
      obtain ⟨hafter, hunits, hnone⟩ := handle_of_absent hfind hr hm now
      rw [ledger_concat hr, delivered_concat, reached_concat, hdelivered, hreached, hunits, hnone]
      exact ⟨hafter, rfl, rfl⟩
    · rw [ledger_concat_of_ne hr]
      refine ⟨?_, hdelivered, hreached⟩
      exact (find?_handle hr (by simp [hfind])).trans hfind

/-- While ids are fresh, a session that lives is in balance with the ledger of its stream. -/
theorem balanced_of_fresh (fresh : (Request.made requests).Nodup) {s : Session} :
    let start : Store := { timeToLive, limit }
    (run start requests).find? id = some s → Balanced s (ledger id start requests) := by
  intro start h
  -- What lives after the last request lived before it or was made by it.
  induction requests using List.reverseRecOn generalizing s with
  | nil => cases h
  | append_singleton requests last ih =>
    obtain ⟨now, r⟩ := last
    rw [Request.made_append, Request.made_singleton] at fresh
    have hids : ((run start requests).live.map Session.id).Nodup :=
      (map_id_run_sublist start requests).nodup fresh.of_append_left
    rw [run_append] at h
    change (handle (run start requests) now r).1.find? id = some s at h
    by_cases hr : r.id? = some id
    · rw [ledger_concat hr]
      cases hm : r.makes? with
      | some id' =>
        cases r with
        | create id₀ body =>
          obtain rfl : id₀ = id := Option.some.inj hr
          have hnew : id₀ ∉ Request.made requests := fun hid ↦
            List.disjoint_of_nodup_append fresh hid (Option.mem_toList.mpr rfl)
          obtain ⟨hnone, hdelivered, hreached⟩ :=
            ledger_of_unmade timeToLive limit hnew
          apply Balanced.of_create hnone h
          · rw [delivered_concat, hdelivered, units_handle_create]
            rfl
          · rw [reached_concat, hreached, reached?, Request.call?, ite_self]
            rfl
        | _ => cases hm
      | none =>
        cases hs : (run start requests).find? id with
        | none =>
          rw [(handle_of_absent hs hr hm now).1] at h
          cases h
        | some s₀ =>
          obtain ⟨hanswer, hfind⟩ := handle_of_find? hr hs hm now
          rw [hanswer]
          exact (ih fresh.of_append_left hs).respond (hfind.symm.trans h)
    · rw [ledger_concat_of_ne hr]
      rcases find?_handle_cases hids hr now with he | he
      · rw [he] at h
        exact ih fresh.of_append_left h
      · rw [he] at h
        cases h

private theorem units_of_flush (fresh : (Request.made requests).Nodup)
    {exchange : Request × Response} (h : exchange ∈ ledger id { timeToLive, limit } requests)
    (hf : exchange.1 = .flush id) :
    exchange.2.units = [] := by
  induction requests using List.reverseRecOn with
  | nil => cases h
  | append_singleton requests last ih =>
    obtain ⟨now, r⟩ := last
    rw [Request.made_append] at fresh
    have hbefore := fresh.of_append_left
    by_cases hr : r.id? = some id
    · rw [ledger_concat hr, List.mem_append, List.mem_singleton] at h
      rcases h with h | rfl
      · exact ih hbefore h
      · obtain rfl : r = .flush id := hf
        cases hs : (run { timeToLive, limit } requests).find? id with
        | none => exact (handle_of_absent hs hr rfl now).2.1
        | some s =>
          rw [(handle_of_call hr hs rfl now).1, units_pass (balanced_of_fresh hbefore hs).drained]
          · rfl
          · intro caps hc
            cases hc
    · rw [ledger_concat_of_ne hr] at h
      exact ih hbefore h

/-- Ids are fresh, and requests about any streams are answered in order. For as long as the session
of an id lives nothing waits in it between requests, the units that it has answered with are those
that its stream has written on the calls that reached it, and its counters count these units and
the pushes that found it. A flush is answered with no units. -/
theorem units_are_handed_over_once (timeToLive limit : Int) (id : String)
    (fresh : (Request.made requests).Nodup) :
    let start : Store := { timeToLive, limit }
    (∀ s, (run start requests).find? id = some s → Balanced s (ledger id start requests)) ∧
      ∀ exchange ∈ ledger id start requests, exchange.1 = .flush id → exchange.2.units = [] :=
  ⟨fun _ h ↦ balanced_of_fresh fresh h, fun _ h hf ↦ units_of_flush fresh h hf⟩

/-- A push comes before the stream is made, another has a time that cannot be counted in seconds,
and a caption is shown and cleared in between. The push that fails is counted, too. -/
theorem units_are_handed_over_once_around_fault :
    let start : Store := { limit := 1 }
    let body (digits : String) (time : Int) : Json :=
      .object [("data", .string digits), ("pts", .int time)]
    let requests : List (Int × Request) :=
      [(0, .push "a" (body "9429" 0)), (1, .create "a" (.object [("format", .string "srt")])),
        (2, .push "a" (body "9429" 0)), (3, .push "a" (body "c1c2" 1000000000)),
        (4, .push "a" (body "9429" (10 ^ 320))), (5, .cleanup),
        (6, .push "a" (body "942c" 2500000000)), (7, .flush "a"), (8, .get "a")]
    let cue : TextUnit :=
      ⟨"01\r\n0:00:01,000 --> 00:00:02,500\r\nAB\r\n\r\n", 1000000000, some 1500000000⟩
    (Request.made requests).Nodup ∧ delivered (ledger "a" start requests) = [cue] ∧
      (∀ exchange ∈ ledger "a" start requests,
        exchange.1 = .flush "a" → exchange.2.units = []) ∧
      ∃ s, (run start requests).find? "a" = some s ∧ s.unitsIn = 4 ∧ s.unitsOut = 1 ∧
        s.link.downstream.units = #[] := by
  intro start body requests cue
  have fresh : (Request.made requests).Nodup := by decide
  have hcue : delivered (ledger "a" start requests) = [cue] := by decide +kernel
  have hreached : (reached "a" (ledger "a" start requests)).countP Call.isUnit = 4 := by
    decide +kernel
  have hlives : ((run start requests).find? "a").isSome := by decide +kernel
  obtain ⟨s, hs⟩ := Option.isSome_iff_exists.mp hlives
  obtain ⟨hlaw, hflush⟩ := units_are_handed_over_once 3600 1 "a" fresh
  have hbalanced := hlaw s hs
  refine ⟨fresh, hcue, hflush, s, hs, ?_, ?_, hbalanced.drained⟩
  · rw [hbalanced.unitsIn_eq, Store.id_of_find? hs]
    exact hreached
  · rw [hbalanced.unitsOut_eq]
    exact congrArg List.length hcue

end Run

end Service

end Line21
