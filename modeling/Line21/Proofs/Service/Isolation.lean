import Line21.Proofs.Service.Calls

/-!
# Streams do not touch each other

Whatever is asked of a service about other streams in between, a client gets the answers that it
would get if nobody else were there. The two runs are compared request by request: what is found
under the id in one agrees with what is found in the other, up to the id and the times.
-/

namespace Line21

/-- Two sessions that differ in their ids and times at most. -/
structure Session.Alike (s s' : Session) : Prop where
  format_eq : s.format = s'.format
  link_eq : s.link = s'.link
  unitsIn_eq : s.unitsIn = s'.unitsIn
  unitsOut_eq : s.unitsOut = s'.unitsOut

/-- Two answers about streams of two ids that differ in these ids and in when the streams were made
at most. -/
inductive Response.Alike (id id' : String) : Response → Response → Prop
  | stream (status : Nat) (format : Format) (caps : Caps) (created created' : Int)
    (unitsIn unitsOut : Nat) :
    Alike id id' (.success status (.stream ⟨id, format, caps, created, unitsIn, unitsOut⟩))
      (.success status (.stream ⟨id', format, caps, created', unitsIn, unitsOut⟩))
  | units (status : Nat) (us : List TextUnit) :
    Alike id id' (.success status (.units id us)) (.success status (.units id' us))
  | nothing (status : Nat) :
    Alike id id' (.success status .nothing) (.success status .nothing)
  | notFound : Alike id id' (Service.notFound id) (Service.notFound id')
  | refusal (status : Nat) (detail : String) :
    Alike id id' (.refusal status detail) (.refusal status detail)
  | fault (error : Number.NumberError) : Alike id id' (.fault error) (.fault error)

/-- A request about a stream, made about the stream of an id. -/
def Request.readdressed (id : String) : Request → Request
  | .create _ body => .create id body
  | .get _ => .get id
  | .push _ body => .push id body
  | .flush _ => .flush id
  | .finish _ => .finish id
  | .delete _ => .delete id
  | .health => .health
  | .formats => .formats
  | .list => .list
  | .cleanup => .cleanup
  | .convert upload => .convert upload

private theorem Request.Asks.readdressed {id : String} {r : Request} (h : r.Asks id)
    (id' : String) :
    (r.readdressed id').Asks id' := by
  cases r with
  | get _ | flush _ | finish _ | delete _ => rfl
  | push _ _ => exact ⟨rfl, h.2⟩
  | _ => exact h.elim

/-- A request that is readdressed makes the other stream. -/
theorem Request.makes?_readdressed (id : String) (r : Request) :
    (r.readdressed id).makes? = r.makes?.map fun _ ↦ id := by
  cases r <;> rfl

/-- A request that is readdressed is about the other stream. -/
theorem Request.id?_readdressed (id : String) (r : Request) :
    (r.readdressed id).id? = r.id?.map fun _ ↦ id := by
  cases r <;> rfl

namespace Service

/-! ### One request -/

section Step

variable {store store' : Store} {id id' : String}

private theorem settle_alike {s s' : Session} (h : s.Alike s') (result : Except StreamError Unit) :
    Option.Rel Session.Alike (settle s result).1 (settle s' result).1 ∧
      Response.Alike s.id s'.id (settle s result).2 (settle s' result).2 := by
  unfold settle
  cases result with
  | ok _ =>
    obtain ⟨id, format, link, created, updated, unitsIn, unitsOut⟩ := s
    obtain ⟨id', format', link', created', updated', unitsIn', unitsOut'⟩ := s'
    obtain ⟨rfl, rfl, rfl, rfl⟩ := h
    exact ⟨.some ⟨rfl, rfl, rfl, rfl⟩, .units 200 _⟩
  | error e =>
    cases e with
    | number error => exact ⟨.some h, .fault error⟩
    | notNegotiated | missingTime | refused _ | offer _ =>
      dsimp only
      split
      · exact ⟨.none, .refusal 422 _⟩
      · exact ⟨.some h, .refusal 500 _⟩

private theorem pass_alike {s s' : Session} (h : s.Alike s') (now now' : Int) (c : Call) :
    Option.Rel Session.Alike (pass s now c).1 (pass s' now' c).1 ∧
      Response.Alike s.id s'.id (pass s now c).2 (pass s' now' c).2 := by
  rw [pass, pass, h.link_eq]
  apply settle_alike
  exact ⟨h.format_eq, rfl, congrArg (· + c.isUnit.toNat) h.unitsIn_eq, h.unitsOut_eq⟩

private theorem pass?_alike {s s' : Session} (h : s.Alike s') (now now' : Int) (c? : Option Call) :
    Option.Rel Session.Alike (pass? s now c?).1 (pass? s' now' c?).1 ∧
      Response.Alike s.id s'.id (pass? s now c?).2 (pass? s' now' c?).2 := by
  cases c? with
  | some c => exact pass_alike h now now' c
  | none => exact ⟨.some h, .refusal 422 _⟩

private theorem respond_alike {s s' : Session} (h : s.Alike s') (now now' : Int) (r : Request) :
    Option.Rel Session.Alike (respond s now r).1 (respond s' now' r).1 ∧
      Response.Alike s.id s'.id (respond s now r).2 (respond s' now' r).2 := by
  cases r with
  | get _ =>
    have hcaps : s.caps = s'.caps := by rw [Session.caps, Session.caps, h.link_eq, h.format_eq]
    refine ⟨.some ⟨h.format_eq, h.link_eq, h.unitsIn_eq, h.unitsOut_eq⟩, ?_⟩
    rw [respond, respond, info, info, h.format_eq, hcaps, h.unitsIn_eq, h.unitsOut_eq]
    exact .stream 200 s'.format s'.caps s.created s'.created s'.unitsIn s'.unitsOut
  | delete _ => exact ⟨.none, .nothing 204⟩
  | _ => exact pass?_alike h now now' _

private theorem respond_readdressed (s : Session) (now : Int) (r : Request) :
    respond s now (r.readdressed id) = respond s now r := by
  cases r <;> rfl

private theorem handle_create_alike
    (h : Option.Rel Session.Alike (store.find? id) (store'.find? id'))
    (room : store.live.length < store.limit) (room' : store'.live.length < store'.limit)
    (body : Json) (now now' : Int) :
    Option.Rel Session.Alike ((handle store now (.create id body)).1.find? id)
        ((handle store' now' (.create id' body)).1.find? id') ∧
      Response.Alike id id' (handle store now (.create id body)).2
        (handle store' now' (.create id' body)).2 := by
  rw [handle, handle]
  cases body.format? with
  | none => exact ⟨h, .refusal 422 _⟩
  | some format =>
    have hc : store.create id now format = .ok _ := Store.create_eq_ok_iff.mpr ⟨room, rfl⟩
    have hc' : store'.create id' now' format = .ok _ := Store.create_eq_ok_iff.mpr ⟨room', rfl⟩
    dsimp only
    rw [hc, hc']
    dsimp only
    rw [Store.find?_create hc, Store.find?_create hc', if_pos rfl, if_pos rfl]
    generalize store.find? id = found at h ⊢
    generalize store'.find? id' = found' at h ⊢
    constructor
    · cases h with
      | none => exact .some ⟨rfl, rfl, rfl, rfl⟩
      | some h => exact .some h
    · exact .stream 201 format _ now now' 0 0

private theorem handle_alike (h : Option.Rel Session.Alike (store.find? id) (store'.find? id'))
    {r : Request} (hr : r.id? = some id)
    (room : r.makes? = some id → store.live.length < store.limit)
    (room' : r.makes? = some id → store'.live.length < store'.limit) (now now' : Int) :
    Option.Rel Session.Alike ((handle store now r).1.find? id)
        ((handle store' now' (r.readdressed id')).1.find? id') ∧
      Response.Alike id id' (handle store now r).2 (handle store' now' (r.readdressed id')).2 := by
  cases hm : r.makes? with
  | some made =>
    cases r with
    | create id body =>
      obtain rfl := Option.some.inj hr
      exact handle_create_alike h (room rfl) (room' rfl) body now now'
    | _ => cases hm
  | none =>
    have hm' : (r.readdressed id').makes? = none := by
      rw [r.makes?_readdressed, hm, Option.map_none]
    have hr' : (r.readdressed id').id? = some id' := by
      rw [r.id?_readdressed, hr, Option.map_some]
    generalize hs : store.find? id = found at h
    generalize hs' : store'.find? id' = found' at h
    cases h with
    | none =>
      rcases Request.asks_or_unread hr hm with ha | ⟨body, rfl, hb⟩
      · obtain ⟨hanswer, hfind⟩ := handle_of_find?_eq_none hs now ha
        obtain ⟨hanswer', hfind'⟩ := handle_of_find?_eq_none hs' now' (ha.readdressed id')
        rw [hanswer, hfind, hanswer', hfind']
        exact ⟨.none, .notFound⟩
      · rw [Request.readdressed, handle_of_unread hb, handle_of_unread hb, hs, hs']
        exact ⟨.none, .refusal 422 _⟩
    | @some s s' h =>
      obtain ⟨hanswer, hfind⟩ := handle_of_find? hr hs hm now
      obtain ⟨hanswer', hfind'⟩ := handle_of_find? hr' hs' hm' now'
      rw [hanswer, hfind, hanswer', hfind', respond_readdressed]
      have hp := respond_alike h now now' r
      rwa [Store.id_of_find? hs, Store.id_of_find? hs'] at hp

end Step

/-! ### Requests in the course of time -/

/-- While requests are answered in order, there is room whenever the stream of an id is made. -/
def Roomy (id : String) (store : Store) : List (Int × Request) → Prop
  | [] => True
  | (now, r) :: rest =>
    (r.makes? = some id → store.live.length < store.limit) ∧ Roomy id (handle store now r).1 rest

/-- There is room while there is some for all the streams that are to be made. -/
theorem roomy_of_length {store : Store} {id : String} {requests : List (Int × Request)}
    (h : id ∈ Request.made requests →
      store.live.length + (Request.made requests).length ≤ store.limit) :
    Roomy id store requests := by
  induction requests generalizing store with
  | nil => trivial
  | cons first requests ih =>
    obtain ⟨now, r⟩ := first
    have hl := (map_id_handle_sublist store now r).length_le
    rw [← List.singleton_append, Request.made_append, Request.made_singleton] at h
    simp only [List.length_append, List.length_map, List.mem_append, Option.mem_toList] at h hl
    constructor
    · intro hr
      have hn := h (.inl hr)
      rw [hr] at hn
      simp only [Option.toList_some, List.length_singleton] at hn
      omega
    · apply ih
      intro hid
      have hn := h (.inr hid)
      rw [limit_handle]
      omega

/-- Where two streams are alike, or both are not there, the answers to the requests about them are
alike, and so are they afterwards. In one run there may be requests about other streams. -/
theorem answersTo_alike {store store' : Store} {id id' : String}
    {requests alone : List (Int × Request)}
    (h : Option.Rel Session.Alike (store.find? id) (store'.find? id'))
    (calm : ∀ timed ∈ requests, timed.2 ≠ .cleanup)
    (room : Roomy id store requests) (room' : Roomy id' store' alone)
    (same : alone.map Prod.snd = (Request.about id requests).map (·.readdressed id')) :
    List.Forall₂ (Response.Alike id id') (answersTo id store requests)
        (answersTo id' store' alone) ∧
      Option.Rel Session.Alike ((run store requests).find? id) ((run store' alone).find? id') := by
  induction requests generalizing store store' alone with
  | nil =>
    obtain rfl : alone = [] := List.map_eq_nil_iff.mp same
    exact ⟨.nil, h⟩
  | cons first requests ih =>
    obtain ⟨now, r⟩ := first
    obtain ⟨hcalm, calm⟩ := List.forall_mem_cons.mp calm
    obtain ⟨hroom, room⟩ := room
    have hrun : run store ((now, r) :: requests) = run (handle store now r).1 requests := rfl
    rw [answersTo, hrun]
    rw [Request.about_cons] at same
    by_cases hr : r.id? = some id
    · rw [if_pos hr] at same ⊢
      obtain ⟨⟨now', r'⟩, alone, rfl, rfl, hsame⟩ := List.map_eq_cons_iff.mp same
      obtain ⟨hroom', room'⟩ := room'
      have hid : (r.readdressed id').id? = some id' := by
        rw [r.id?_readdressed, hr, Option.map_some]
      obtain ⟨hfound, hanswer⟩ := handle_alike h hr hroom
        (fun hm ↦ hroom' (by rw [r.makes?_readdressed, hm, Option.map_some])) now now'
      obtain ⟨hanswers, hlast⟩ := ih hfound calm room room' hsame
      rw [answersTo, if_pos hid]
      exact ⟨.cons hanswer hanswers, hlast⟩
    · rw [if_neg hr] at same ⊢
      have hf : (handle store now r).1.find? id = store.find? id :=
        find?_handle hr fun _ _ hc ↦ absurd hc hcalm
      rw [← hf] at h
      exact ih h calm room room' same

private theorem limit_pos_of_roomy {store : Store} {id : String} {requests : List (Int × Request)}
    (room : Roomy id store requests) (h : id ∈ Request.made requests) : 0 < store.limit := by
  induction requests generalizing store with
  | nil => simp [Request.made] at h
  | cons first requests ih =>
    obtain ⟨now, r⟩ := first
    obtain ⟨hroom, room⟩ := room
    by_cases hr : r.makes? = some id
    · have hn := hroom hr
      omega
    · have hm : id ∈ Request.made requests := by
        obtain ⟨timed, ht, hid⟩ := List.mem_filterMap.mp h
        rcases List.mem_cons.mp ht with rfl | ht
        · exact absurd hid hr
        · exact List.mem_filterMap.mpr ⟨timed, ht, hid⟩
      rw [← limit_handle store now r]
      exact ih room hm

/-- The requests about one stream make it as often as all requests do. -/
theorem made_of_about {id id' : String} {requests alone : List (Int × Request)}
    (same : alone.map Prod.snd = (Request.about id requests).map (·.readdressed id')) :
    Request.made alone = ((Request.made requests).filter (· == id)).map fun _ ↦ id' := by
  have hm (requests : List (Int × Request)) :
      Request.made requests = (requests.map Prod.snd).filterMap Request.makes? := by
    rw [List.filterMap_map]
    rfl
  have hr (r : Request) :
      (if (r.id? == some id) = true then r.makes? else none) = r.makes?.filter (· == id) := by
    cases r <;> simp [Request.id?, Request.makes?, Option.filter]
  rw [hm alone, same, hm requests, Request.about, List.filterMap_map, List.filter_filterMap,
    List.map_filterMap, List.filterMap_filter]
  apply List.filterMap_congr
  intro r _
  rw [← hr, Function.comp_apply, r.makes?_readdressed]
  split <;> rfl

/-- Requests about any streams are answered in order, without a cleanup, each stream under an id of
its own and one of them with room when it is made. If its requests come alone, at whatever times
and under whatever id, they get the same answers up to the id and the time at which the stream was
made, and the stream is left in the same state. -/
theorem answers_alike_when_alone (timeToLive limit : Int) {id id' : String}
    {requests alone : List (Int × Request)} (calm : ∀ timed ∈ requests, timed.2 ≠ .cleanup)
    (fresh : (Request.made requests).Nodup) (room : Roomy id { timeToLive, limit } requests)
    (same : alone.map Prod.snd = (Request.about id requests).map (·.readdressed id')) :
    let start : Store := { timeToLive, limit }
    List.Forall₂ (Response.Alike id id') (answersTo id start requests)
        (answersTo id' start alone) ∧
      Option.Rel Session.Alike ((run start requests).find? id) ((run start alone).find? id') := by
  intro start
  have hmade := made_of_about same
  have hone : (Request.made alone).length ≤ 1 := by
    rw [hmade, List.length_map, ← List.countP_eq_length_filter]
    exact List.nodup_iff_count_le_one.mp fresh id
  have room' : Roomy id' start alone := by
    apply roomy_of_length
    intro h
    rw [hmade] at h
    obtain ⟨id₀, hid₀, -⟩ := List.mem_map.mp h
    obtain ⟨hm, he⟩ := List.mem_filter.mp hid₀
    have hpos : 0 < start.limit := limit_pos_of_roomy room (beq_iff_eq.mp he ▸ hm)
    have hempty : start.live.length = 0 := rfl
    omega
  exact answersTo_alike .none calm room room' same

/-- A client feeds a stream while that of another is stopped by a unit without a time and deleted
in vain, and a third is made. It gets its one caption at the end. Alone, later and under another
id, it gets the same caption. -/
theorem answers_alike_when_alone_beside_failure :
    let start : Store := { limit := 2 }
    let body (digits : String) (pts : Json) : Json :=
      .object [("data", .string digits), ("pts", pts)]
    let requests : List (Int × Request) :=
      [(0, .create "a" (.object [("format", .string "raw")])),
        (1, .create "b" (.object [("format", .string "vtt")])),
        (2, .push "a" (body "9429" (.int 0))), (3, .push "b" (body "9429" .null)),
        (4, .push "a" (body "c1c2" (.int 1000000000))), (5, .delete "b"),
        (6, .create "c" (.object [("format", .string "srt")])), (7, .flush "c"),
        (8, .finish "a"), (9, .get "a")]
    let alone : List (Int × Request) :=
      [(100, .create "z" (.object [("format", .string "raw")])),
        (102, .push "z" (body "9429" (.int 0))), (101, .push "z" (body "c1c2" (.int 1000000000))),
        (103, .finish "z"), (104, .get "z")]
    let answers (id : String) (created : Int) : List Response :=
      [.success 201 (.stream ⟨id, .plain, Format.plain.caps, created, 0, 0⟩),
        .success 200 (.units id []), .success 200 (.units id []),
        .success 200 (.units id [⟨"AB", 1000000000, some 0⟩]),
        .success 200 (.stream ⟨id, .plain, Format.plain.caps, created, 2, 1⟩)]
    (Request.made requests).Nodup ∧ Roomy "a" start requests ∧
      answersTo "a" start requests = answers "a" 0 ∧
      answersTo "z" start alone = answers "z" 100 ∧
      answersTo "b" start requests =
        [.success 201 (.stream (info (.opened "b" .webVtt 1))),
          .refusal 422 StreamError.missingTime.message, notFound "b"] ∧
      List.Forall₂ (Response.Alike "a" "z") (answersTo "a" start requests)
        (answersTo "z" start alone) ∧
      Option.Rel Session.Alike ((run start requests).find? "a") ((run start alone).find? "z") := by
  intro start body requests alone answers
  have calm : ∀ timed ∈ requests, timed.2 ≠ .cleanup := by simp [requests]
  have fresh : (Request.made requests).Nodup := by decide
  have room : Roomy "a" start requests := by
    constructor
    · intro _
      decide
    · apply roomy_of_length
      intro h
      exact absurd h (by decide)
  have fed : answersTo "a" start requests = answers "a" 0 := by decide +kernel
  have fedAlone : answersTo "z" start alone = answers "z" 100 := by decide +kernel
  refine ⟨fresh, room, fed, fedAlone, ?_, answers_alike_when_alone 3600 2 calm fresh room rfl⟩
  decide +kernel

end Service

end Line21
