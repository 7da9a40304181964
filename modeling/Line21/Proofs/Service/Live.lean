import Line21.Proofs.Conversion.Cues
import Line21.Proofs.Service.Requests
import Line21.Proofs.Stream.Noise
import Mathlib.Data.List.Forall2

/-!
# Streams that are fed live

A client that makes a stream, pushes units to it one by one and ends it gets in portions what a
conversion of the units writes in one piece. Every push is answered with the portion that its unit
completes. A unit without a time stops a conversion with nothing, while the client keeps the
portions that it got before, is told the reason, and finds its stream gone.
-/

namespace Line21

open Downstream (Records Calm pushAll taken_pushAll)

/-! ### Portions -/

section Portions

variable {δ σ : Type} [CaptionDecoder δ] [Downstream σ]

/-- What a stream writes on each of some units, up to the first that stops it. -/
def Stream.portions (s : Stream δ) : List CaptionUnit → List (List TextUnit)
  | [] => []
  | u :: us =>
    match s.accept u with
    | .ok (s', portion) => portion :: s'.portions us
    | .error _ => []

private theorem Stream.portions_take (s : Stream δ) (us : List CaptionUnit) (k : Nat) :
    s.portions (us.take k) = (s.portions us).take k := by
  induction us generalizing s k with
  | nil => rw [List.take_nil, portions, List.take_nil]
  | cons u us ih =>
    cases k with
    | zero => rfl
    | succ k =>
      rw [List.take_succ_cons, portions, portions]
      split
      · next s' portion h => rw [List.take_succ_cons, ih]
      · rfl

/-- When no unit stops the stream there is a portion for each. -/
theorem Stream.length_portions {s : Stream δ} {f : Format} (hf : s.format = some f)
    {us : List CaptionUnit} (h : ∀ u ∈ us, u.fault? = none) :
    (s.portions us).length = us.length := by
  induction us generalizing s with
  | nil => rfl
  | cons u us ih =>
    obtain ⟨s', portion, ha⟩ := exists_accept hf (h u List.mem_cons_self)
    rw [portions, ha]
    exact congrArg (· + 1) (ih ((format_accept ha).trans hf) fun v hv ↦
      h v (List.mem_cons_of_mem u hv))

private theorem Stream.portions_append_of_fault {s : Stream δ} {f : Format} (hf : s.format = some f)
    {us : List CaptionUnit} (h : ∀ u ∈ us, u.fault? = none) {u : CaptionUnit} {e : StreamError}
    (hu : u.fault? = some e) (rest : List CaptionUnit) :
    s.portions (us ++ u :: rest) = s.portions us := by
  induction us generalizing s with
  | nil =>
    have ha := (accept_eq_error_iff hf).mpr hu
    rw [List.nil_append, portions, portions, ha]
  | cons v us ih =>
    obtain ⟨s', portion, ha⟩ := exists_accept hf (h v List.mem_cons_self)
    rw [List.cons_append, portions, portions, ha]
    exact congrArg (portion :: ·) (ih ((format_accept ha).trans hf) fun w hw ↦
      h w (List.mem_cons_of_mem v hw))

private theorem Link.taken_acceptAll {taken : σ → List TextUnit} (hr : Records taken) (hc : Calm σ)
    (l : Link δ σ) (us : List CaptionUnit) :
    taken (l.acceptAll us).1.downstream = taken l.downstream ++ (l.stream.portions us).flatten := by
  induction us generalizing l with
  | nil => exact (List.append_nil _).symm
  | cons u us ih =>
    rw [acceptAll, Stream.portions]
    cases ha : l.stream.accept u with
    | error e =>
      rw [accept_of_error l u ha]
      exact (List.append_nil _).symm
    | ok r =>
      rw [accept_of_ok hc l u ha]
      dsimp only
      rw [ih, taken_pushAll hr hc, List.flatten_cons, List.append_assoc]

end Portions

namespace Conversion

/-- What a conversion has written when it has taken in units, or has been stopped by one. -/
def soFar (f : Format) (input : List CaptionUnit) : List TextUnit :=
  ((Link.opened f).acceptAll input).1.downstream.units.toList

/-- The first portions make up what a conversion has written on the first units. -/
theorem flatten_take_portions (f : Format) (input : List CaptionUnit) (k : Nat) :
    (((Link.opened f).stream.portions input).take k).flatten = soFar f (input.take k) := by
  have ht := Link.taken_acceptAll Collector.records Collector.calm (Link.opened f) (input.take k)
  have hu : (Link.opened f).downstream.units.toList = [] := by cases f <;> rfl
  rw [hu, List.nil_append] at ht
  rw [soFar, ht, Stream.portions_take]

private theorem units_eq_soFar {f : Format} {input : List CaptionUnit}
    (h : ∀ u ∈ input, u.fault? = none) :
    units f input =
      .ok (soFar f input ++ ((Link.opened f).acceptAll input).1.stream.drain.2) := by
  have hsnd := Link.acceptAll_snd Collector.calm (Link.format_opened f) input
  rw [List.findSome?_eq_none_iff.mpr h] at hsnd
  have ha : (Link.opened f).acceptAll input = (((Link.opened f).acceptAll input).1, .ok ()) :=
    Prod.ext rfl hsnd
  rw [units, ha]
  dsimp only
  rw [Link.signal_finish Collector.calm]
  exact congrArg Except.ok (taken_pushAll Collector.records Collector.calm _ _)

end Conversion

/-! ### Pushes -/

/-- A body carries a unit: its bytes in hexadecimal digits of either case, among which spaces stand
anywhere, and its time. -/
def Json.Carries (body : Json) (u : CaptionUnit) : Prop :=
  ∃ digits : String, body.field? "data" = some (.string digits) ∧
    (digits.toList.filter (· != ' ')).map Char.toLower = Text.Hex.ofBytes u.data ∧
    (body.field? "pts").bind Json.optionalInt? = some u.time

/-- A unit is read from a body that carries it. -/
theorem Json.Carries.captionUnit? {body : Json} {u : CaptionUnit} (h : body.Carries u) :
    body.captionUnit? = some u := by
  obtain ⟨digits, hdata, hdigits, htime⟩ := h
  obtain ⟨pts, hpts, htime⟩ := Option.bind_eq_some_iff.mp htime
  have hbytes : Text.Hex.bytes? (digits.toList.filter (· != ' ')) = some u.data := by
    rw [← Text.Hex.bytes?_map_toLower, hdigits, Text.Hex.bytes?_ofBytes]
  simp only [Json.captionUnit?, hdata, Json.string?, hpts, hbytes, htime, Option.bind_eq_bind,
    Option.bind_some]
  rfl

/-- A request pushes a unit to the stream of an id. -/
def Request.Pushes (id : String) (r : Request) (u : CaptionUnit) : Prop :=
  ∃ body, r = .push id body ∧ body.Carries u

private theorem Request.Pushes.asks {id : String} {r : Request} {u : CaptionUnit}
    (h : r.Pushes id u) :
    r.Asks id := by
  obtain ⟨body, rfl, hb⟩ := h
  exact ⟨rfl, Option.isSome_iff_exists.mpr ⟨u, hb.captionUnit?⟩⟩

private theorem Request.asks_of_pushes {id : String} {rs : List Request} {us : List CaptionUnit}
    (h : List.Forall₂ (Request.Pushes id) rs us) : ∀ r ∈ rs, r.Asks id := by
  induction h with
  | nil => exact fun r hr ↦ nomatch hr
  | cons hr _ ih => exact List.forall_mem_cons.mpr ⟨hr.asks, ih⟩

/-- The session of an id leads a stream that has come to a state, and has answered with all that
the stream has written. -/
def Store.Leads (store : Store) (id : String) (stream : Stream Receiver) : Prop :=
  ∃ s, store.find? id = some s ∧ s.link.stream = stream ∧ s.link.downstream.units = #[]

/-- What is found under an id tells which stream its session leads. -/
theorem Store.Leads.of_find? {store store' : Store} {id : String} {stream : Stream Receiver}
    (h : store.Leads id stream) (hf : store'.find? id = store.find? id) :
    store'.Leads id stream := by
  obtain ⟨s, hs, hstream⟩ := h
  exact ⟨s, hf.trans hs, hstream⟩

namespace Service

section Steps

variable {store : Store} {id : String} {stream : Stream Receiver}

/-- An answer that goes well holds the units that are kept for the session, and leaves none. -/
theorem answer_ok (s : Session) (h : (store.find? s.id).isSome) (link : Link Receiver Collector) :
    (answer store s link (.ok ())).2 = .success 200 (.units s.id link.downstream.units.toList) ∧
      (answer store s link (.ok ())).1.Leads s.id link.stream := by
  obtain ⟨x, hx⟩ := Option.isSome_iff_exists.mp h
  refine ⟨rfl, { s with
    link := ⟨link.stream, { link.downstream with units := #[] }⟩
    unitsOut := s.unitsOut + link.downstream.units.toList.length }, ?_, rfl, rfl⟩
  refine (Store.find?_modify_self store fun _ _ ↦ rfl).trans ?_
  rw [hx]
  rfl

/-- A session that was asked for is still there. -/
theorem isSome_find?_get {s : Session} (h : store.find? id = some s) (now : Int) :
    ((store.get id now).2.find? id).isSome := by
  rw [Store.find?_get, h]
  rfl

/-- Units that are handed to a collector which keeps none are what it keeps then. -/
theorem units_pushAll {d : Collector} (hd : d.units = #[]) (us : List TextUnit) :
    (pushAll d us).units.toList = us := by
  have ht := taken_pushAll Collector.records Collector.calm d us
  rwa [hd] at ht

private theorem handle_create {body : Json} {format : Format} (hid : store.find? id = none)
    (hroom : store.live.length < store.limit) (hb : body.format? = some format) (now : Int) :
    (handle store now (.create id body)).2 =
        .success 201 (.stream (info (.opened id format now))) ∧
      (handle store now (.create id body)).1.Leads id (Link.opened format).stream := by
  have hc : store.create id now format =
      .ok { store with live := store.live ++ [.opened id format now] } :=
    if_neg (Int.not_le.mpr hroom)
  have hf := Store.find?_create hc id
  rw [hid, if_pos rfl] at hf
  rw [handle, hb]
  dsimp only
  rw [hc]
  exact ⟨rfl, _, hf, rfl, by cases format <;> rfl⟩

private theorem handle_push (h : store.Leads id stream) {r : Request} {u : CaptionUnit}
    (hr : r.Pushes id u) {stream' : Stream Receiver} {us : List TextUnit}
    (ha : stream.accept u = .ok (stream', us)) (now : Int) :
    (handle store now r).2 = .success 200 (.units id us) ∧
      (handle store now r).1.Leads id stream' := by
  obtain ⟨body, rfl, hb⟩ := hr
  obtain ⟨s, hs, rfl, hd⟩ := h
  obtain rfl := Store.id_of_find? hs
  have ho := answer_ok { s with updated := now, unitsIn := s.unitsIn + 1 } (isSome_find?_get hs now)
    ⟨stream', pushAll s.link.downstream us⟩
  rw [units_pushAll hd] at ho
  rw [handle, hb.captionUnit?]
  dsimp only
  rw [withSession_of_find? hs, push]
  dsimp only
  rw [Link.accept_of_ok Collector.calm s.link u ha]
  exact ho

private theorem handle_push_of_missingTime (h : store.Leads id stream) {r : Request}
    {u : CaptionUnit} (hr : r.Pushes id u) (ha : stream.accept u = .error .missingTime)
    (now : Int) :
    (handle store now r).2 = .refusal 422 StreamError.missingTime.message ∧
      (handle store now r).1.find? id = none := by
  obtain ⟨body, rfl, hb⟩ := hr
  obtain ⟨s, hs, rfl, -⟩ := h
  obtain rfl := Store.id_of_find? hs
  rw [handle, hb.captionUnit?]
  dsimp only
  rw [withSession_of_find? hs, push]
  dsimp only
  rw [Link.accept_of_error s.link u ha]
  exact ⟨rfl, Store.find?_dismiss_self _ s.id⟩

private theorem handle_finish (h : store.Leads id stream) (now : Int) :
    (handle store now (.finish id)).2 = .success 200 (.units id stream.drain.2) ∧
      (handle store now (.finish id)).1.Leads id stream.drain.1 := by
  obtain ⟨s, hs, rfl, hd⟩ := h
  obtain rfl := Store.id_of_find? hs
  have ho := answer_ok { s with updated := now } (isSome_find?_get hs now)
    (s.link.signal .finish).1
  rw [Link.signal_finish Collector.calm] at ho
  have hu := units_pushAll hd s.link.stream.drain.2
  rw [handle, withSession_of_find? hs, signal]
  dsimp only
  rw [Link.signal_finish Collector.calm]
  exact ⟨ho.1.trans (congrArg (fun us ↦ Response.success 200 (.units s.id us)) hu), ho.2⟩

end Steps

/-- The answer that hands units of the stream of an id over. -/
def delivery (id : String) (us : List TextUnit) : Response := .success 200 (.units id us)

/-- Units that are pushed one by one are answered with their portions. -/
theorem answersTo_pushes {store : Store} {id : String} {l : Link Receiver Collector} {f : Format}
    (hf : l.stream.format = some f) (hl : store.Leads id l.stream)
    {requests : List (Int × Request)} (hs : Spared id store requests) {pushes rs : List Request}
    (habout : Request.about id requests = pushes ++ rs) {input : List CaptionUnit}
    (hp : List.Forall₂ (Request.Pushes id) pushes input) (h : ∀ u ∈ input, u.fault? = none) :
    ∃ l' store' rest, l.acceptAll input = (l', .ok ()) ∧ l'.stream.format = some f ∧
      store'.Leads id l'.stream ∧ Spared id store' rest ∧ Request.about id rest = rs ∧
      answersTo id store requests =
        (l.stream.portions input).map (delivery id) ++ answersTo id store' rest := by
  -- Requests about other streams may come before each push, so the store is another one each time.
  induction hp generalizing store l requests with
  | nil => exact ⟨l, store, requests, rfl, hf, hl, hs, habout, rfl⟩
  | @cons r u pushes input hr hp ih =>
    obtain ⟨store₁, now, rest₁, hfind, habout₁, hs₁, hanswers⟩ := answersTo_of_about hs habout
    obtain ⟨stream, portion, ha⟩ := Stream.exists_accept hf (h u List.mem_cons_self)
    obtain ⟨hresponse, hleads⟩ := handle_push (hl.of_find? hfind) hr ha now
    have haccept := Link.accept_of_ok Collector.calm l u ha
    obtain ⟨l', store', rest, hall, hf', hl', hs', habout', hrest⟩ :=
      ih (l := ⟨stream, pushAll l.downstream portion⟩) ((Stream.format_accept ha).trans hf) hleads
        hs₁ habout₁ fun v hv ↦ h v (List.mem_cons_of_mem u hv)
    refine ⟨l', store', rest, ?_, hf', hl', hs', habout', ?_⟩
    · rw [Link.acceptAll, haccept]
      exact hall
    · rw [hanswers, hresponse, hrest, Stream.portions, ha]
      rfl

section Runs

variable {store : Store} {id : String} {format : Format} {requests : List (Int × Request)}
  {pushes later : List Request}

/-- When every unit has a time, the pushes and the end are answered with what a conversion
writes. -/
theorem answersTo_of_timed (hl : store.Leads id (Link.opened format).stream)
    (hs : Spared id store requests)
    (habout : Request.about id requests = pushes ++ .finish id :: later)
    {input : List CaptionUnit} (hpushes : List.Forall₂ (Request.Pushes id) pushes input)
    (ht : ∀ u ∈ input, u.IsTimed) :
    ∃ portions : List (List TextUnit), portions.length = input.length + 1 ∧
      portions.map (delivery id) <+: answersTo id store requests ∧
      Conversion.units format input = .ok portions.flatten := by
  have hformat := Link.format_opened format
  have hfault : ∀ u ∈ input, u.fault? = none := fun u hu ↦ (ht u hu).fault?_eq_none
  have hlength := Stream.length_portions hformat hfault
  obtain ⟨l, store', rest, hall, -, hl', hs', habout', hpushed⟩ :=
    answersTo_pushes hformat hl hs habout hpushes hfault
  obtain ⟨store₁, now, rest', hfind, -, -, hended⟩ := answersTo_of_about hs' habout'
  obtain ⟨hresponse, -⟩ := handle_finish (hl'.of_find? hfind) now
  refine ⟨(Link.opened format).stream.portions input ++ [l.stream.drain.2], ?_, ?_, ?_⟩
  · rw [List.length_append, hlength]
    rfl
  · rw [hpushed, hended, hresponse, List.map_append]
    exact (List.prefix_append_right_inj _).mpr (List.prefix_append [_] _)
  · have hp := Conversion.flatten_take_portions format input input.length
    rw [List.take_length, List.take_of_length_le (Nat.le_of_eq hlength)] at hp
    rw [Conversion.units_eq_soFar hfault, hall, List.flatten_append, hp, List.flatten_singleton]

/-- A unit without a time is refused as a conversion is, and nothing is found of the stream from
then on. The pushes before it are answered with what the conversion has written. -/
theorem answersTo_of_untimed (hl : store.Leads id (Link.opened format).stream)
    (hs : Spared id store requests)
    (habout : Request.about id requests = pushes ++ .finish id :: later)
    {before after : List CaptionUnit} {u : CaptionUnit}
    (hpushes : List.Forall₂ (Request.Pushes id) pushes (before ++ u :: after))
    (hlater : ∀ r ∈ later, r.Asks id) (ht : ∀ v ∈ before, v.IsTimed) (hu : u.time = none) :
    ∃ portions : List (List TextUnit), portions.length = before.length ∧
      (∀ k ≤ before.length, (portions.take k).flatten = Conversion.soFar format (before.take k)) ∧
      portions.flatten = Conversion.soFar format (before ++ u :: after) ∧
      answersTo id store requests = portions.map (delivery id) ++
        .refusal 422 StreamError.missingTime.message ::
          List.replicate (after.length + 1 + later.length) (notFound id) ∧
      Conversion.units format (before ++ u :: after) = .error .missingTime := by
  have hformat := Link.format_opened format
  have hfault : ∀ v ∈ before, v.fault? = none := fun v hv ↦ (ht v hv).fault?_eq_none
  have hmissing : u.fault? = some .missingTime := by rw [CaptionUnit.fault?, hu]
  have hlength := Stream.length_portions hformat hfault
  -- The pushes fall into those before the unit, its own and those after it.
  have hbefore := List.forall₂_take_append pushes before (u :: after) hpushes
  have hrest := List.forall₂_drop_append pushes before (u :: after) hpushes
  obtain ⟨r, rs, hr, hrs, hdrop⟩ := List.forall₂_cons_right_iff.mp hrest
  rw [← List.take_append_drop before.length pushes, hdrop, List.append_assoc,
    List.cons_append] at habout
  obtain ⟨l, store', rest, -, hf, hl', hs', habout', hpushed⟩ :=
    answersTo_pushes hformat hl hs habout hbefore hfault
  obtain ⟨store₁, now, rest', hfind, habout₁, hs₁, hstopped⟩ := answersTo_of_about hs' habout'
  obtain ⟨hresponse, hgone⟩ := handle_push_of_missingTime (hl'.of_find? hfind) hr
    ((Stream.accept_eq_error_iff hf).mpr hmissing) now
  have hasks : ∀ r ∈ Request.about id rest', r.Asks id := by
    rw [habout₁]
    exact List.forall_mem_append.mpr
      ⟨Request.asks_of_pushes hrs, List.forall_mem_cons.mpr ⟨rfl, hlater⟩⟩
  have hmissed := answersTo_of_find?_eq_none hs₁ hgone hasks
  refine ⟨(Link.opened format).stream.portions before, hlength, fun k _ ↦
    Conversion.flatten_take_portions format before k, ?_, ?_, ?_⟩
  · have hall := Conversion.flatten_take_portions format (before ++ u :: after)
      (before ++ u :: after).length
    rwa [List.take_length, Stream.portions_append_of_fault hformat hfault hmissing,
      List.take_of_length_le (by rw [hlength, List.length_append]; exact Nat.le_add_right _ _)]
      at hall
  · rw [hpushed, hstopped, hresponse, hmissed, habout₁, List.length_append, List.length_cons,
      hrs.length_eq, Nat.add_right_comm, Nat.add_assoc _ later.length]
  · have hfirst : (before ++ u :: after).findSome? CaptionUnit.fault? = some .missingTime := by
      rw [List.findSome?_append, List.findSome?_eq_none_iff.mpr hfault, Option.none_or,
        List.findSome?_cons, hmissing]
    rw [Conversion.units_eq, hfirst]

/-- A client makes a stream in a store with room for it, pushes units to it one by one and ends
it, while whatever else is asked leaves its session alone. If every unit has a time, the answers
to the pushes and to the end hold in portions what a conversion of the units writes. If a unit has
none, the answers to the pushes before it hold what the conversion has written by then, its own
push is refused with the error of the conversion, and whatever the client asks of the stream
afterwards is not found. -/
theorem live_agrees_with_conversion {now : Int} {body : Json} {input : List CaptionUnit}
    (hid : store.find? id = none) (hroom : store.live.length < store.limit)
    (hbody : body.format? = some format)
    (hspared : Spared id store ((now, .create id body) :: requests))
    (habout : Request.about id requests = pushes ++ .finish id :: later)
    (hpushes : List.Forall₂ (Request.Pushes id) pushes input) (hlater : ∀ r ∈ later, r.Asks id) :
    ∃ answers, answersTo id store ((now, .create id body) :: requests) =
        .success 201 (.stream (info (.opened id format now))) :: answers ∧
      ((∀ u ∈ input, u.IsTimed) →
        ∃ portions : List (List TextUnit), portions.length = input.length + 1 ∧
          portions.map (delivery id) <+: answers ∧
          Conversion.units format input = .ok portions.flatten) ∧
      ∀ before u after, input = before ++ u :: after → (∀ v ∈ before, v.IsTimed) →
        u.time = none →
        ∃ portions : List (List TextUnit), portions.length = before.length ∧
          (∀ k ≤ before.length,
            (portions.take k).flatten = Conversion.soFar format (before.take k)) ∧
          portions.flatten = Conversion.soFar format input ∧
          answers = portions.map (delivery id) ++
            .refusal 422 StreamError.missingTime.message ::
              List.replicate (after.length + 1 + later.length) (notFound id) ∧
          Conversion.units format input = .error .missingTime := by
  obtain ⟨hcreated, hleads⟩ := handle_create hid hroom hbody now
  obtain ⟨-, hspared⟩ := hspared
  refine ⟨answersTo id (handle store now (.create id body)).1 requests, ?_, ?_, ?_⟩
  · rw [← hcreated]
    exact if_pos rfl
  · exact answersTo_of_timed hleads hspared habout hpushes
  · rintro before u after rfl ht hu
    exact answersTo_of_untimed hleads hspared habout hpushes hlater ht hu

/-- Between the requests of a client a cleanup takes another stream, and all streams are listed.
The time of the last unit may be left out. -/
theorem live_agrees_with_conversion_last_untimed :
    let store : Store := { limit := 2, live := [.opened "a" .plain (-1)] }
    let body (digits : String) (pts : Json) : Json :=
      .object [("data", .string digits), ("pts", pts)]
    let requests (pts : Json) : List (Int × Request) :=
      [(0, .create "b" (.object [("format", .string "srt")])), (3600, .cleanup),
        (0, .push "b" (body " 94 29" (.int 0))), (0, .list),
        (1, .push "b" (body "C1c2" (.int 1000000000))),
        (2, .push "b" (body "9 42 C " (.int 2500000000))), (3, .push "b" (body "4380" pts)),
        (4, .finish "b"), (4, .get "b")]
    let cue : TextUnit :=
      ⟨"01\r\n0:00:01,000 --> 00:00:02,500\r\nAB\r\n\r\n", 1000000000, some 1500000000⟩
    let cue' : TextUnit :=
      ⟨"02\r\n0:00:03,000 --> 00:00:03,000\r\nC\r\n\r\n", 3000000000, some 0⟩
    let created : Response := .success 201 (.stream (info (.opened "b" .subRip 0)))
    (∃ portions : List (List TextUnit), portions.flatten = [cue, cue'] ∧ portions.length = 5 ∧
        created :: portions.map (delivery "b") <+:
          answersTo "b" store (requests (.int 3000000000))) ∧
      answersTo "b" store (requests .null) =
        [created, delivery "b" [], delivery "b" [], delivery "b" [cue],
          .refusal 422 "Data unit has no presentation timestamp", notFound "b", notFound "b"] := by
  intro store body requests cue cue' created
  let input (time : Option Int) : List CaptionUnit :=
    [⟨[0x94, 0x29], some 0⟩, ⟨[0xc1, 0xc2], some 1000000000⟩, ⟨[0x94, 0x2c], some 2500000000⟩,
      ⟨[0x43, 0x80], time⟩]
  have hroom : store.live.length < store.limit := by decide
  have hspared (pts : Json) : Spared "b" store (requests pts) := by
    refine ⟨fun _ _ h ↦ (nomatch h), fun x hx _ ↦ ?_, spared_of_no_cleanup (by simp) _⟩
    obtain rfl := Option.some.inj hx
    rfl
  have hpushes {pts : Json} {time : Option Int} (h : pts.optionalInt? = some time) :
      List.Forall₂ (Request.Pushes "b")
        [.push "b" (body " 94 29" (.int 0)), .push "b" (body "C1c2" (.int 1000000000)),
          .push "b" (body "9 42 C " (.int 2500000000)), .push "b" (body "4380" pts)]
        (input time) := by
    refine .cons ⟨_, rfl, _, rfl, ?_, rfl⟩ (.cons ⟨_, rfl, _, rfl, ?_, rfl⟩
      (.cons ⟨_, rfl, _, rfl, ?_, rfl⟩ (.cons ⟨_, rfl, _, rfl, ?_, h⟩ .nil)))
    all_goals
      dsimp only
      decide
  have hlater : ∀ r ∈ [Request.get "b"], r.Asks "b" := List.forall_mem_singleton.mpr rfl
  constructor
  · obtain ⟨answers, hanswers, htimed, -⟩ := live_agrees_with_conversion rfl hroom rfl
      (hspared (.int 3000000000)) rfl (hpushes rfl) hlater
    obtain ⟨portions, hlength, hprefix, hunits⟩ := htimed (by decide +kernel)
    have hcues : Conversion.units .subRip (input (some 3000000000)) = .ok [cue, cue'] := by
      decide +kernel
    refine ⟨portions, Except.ok.inj (hunits.symm.trans hcues), hlength, ?_⟩
    rw [hanswers]
    exact List.cons_prefix_cons.mpr ⟨rfl, hprefix⟩
  · obtain ⟨answers, hanswers, -, huntimed⟩ := live_agrees_with_conversion rfl hroom rfl
      (hspared .null) rfl (hpushes rfl) hlater
    obtain ⟨portions, hlength, hsofar, hall, hafter, -⟩ :=
      huntimed ((input none).take 3) ⟨[0x43, 0x80], none⟩ [] rfl (by decide +kernel) rfl
    obtain ⟨p, q, r, rfl⟩ := List.length_eq_three.mp hlength
    have hfirst : [p, q].flatten = [] := (hsofar 2 (by decide)).trans (by decide +kernel)
    obtain ⟨rfl, rfl⟩ : p = [] ∧ q = [] := by simpa using hfirst
    obtain rfl : r = [cue] := by
      have hr : r = [r].flatten := List.flatten_singleton.symm
      exact hr.trans (hall.trans (by decide +kernel))
    rw [hanswers, hafter]
    rfl

end Runs

end Service

end Line21
