import Line21.Proofs.Service.Lifecycle

/-!
# Expiry

Clients make sessions, ask for them and delete them. In between they list the sessions, their
streams do their work, and the clock goes forth and back. Only making a session and finding it on
request touch it. Main statement: whatever happened to a store that started empty, expiry takes
exactly those sessions that were last touched too long ago, as if they were deleted one by one.
-/

namespace Line21.Store

/-- What happens to a store. -/
inductive Event
  | operation (op : Operation)
  /-- The sessions are listed. -/
  | list
  /-- The stream of a live session does some work. -/
  | work (id : String) (f : Link Receiver Collector → Link Receiver Collector)

namespace Event

/-- The id of the session that an event is to make. -/
def id? : Event → Option String
  | operation op => op.id?
  | list | work _ _ => none

/-- The ids that events are given for new sessions, in order. -/
def given (events : List (Int × Event)) : List String := events.filterMap (·.2.id?)

/-- The ids that a longer course of events is given. -/
theorem given_append (events later : List (Int × Event)) :
    given (events ++ later) = given events ++ given later := List.filterMap_append

/-- The ids that one event is given. -/
theorem given_singleton (now : Int) (e : Event) : given [(now, e)] = e.id?.toList := by
  cases he : e.id? <;> simp [given, he]

end Event

/-! ### What one event does -/

/-- The store after an event at a time. -/
def happen (s : Store) (now : Int) : Event → Store
  | .operation op => s.perform now op
  | .list => s
  | .work id f => s.modify id fun x ↦ { x with link := f x.link }

/-- The id of the session that an event at a time touches: the one that is made, or the one that
is asked for and found. -/
def touched? (s : Store) (now : Int) : Event → Option String
  | .operation (.create id format) => (s.create id now format).toOption.map fun _ ↦ id
  | .operation (.get id) => (s.get id now).1.map Session.id
  | .operation (.delete _) | .operation .expire | .operation (.setLimit _) => none
  | .list | .work _ _ => none

section Happen

variable {s : Store} {now : Int} {e : Event} {op : Operation} {x : Session}

private theorem map_id_happen_sublist (s : Store) (now : Int) (e : Event) :
    ((s.happen now e).live.map Session.id).Sublist (s.live.map Session.id ++ e.id?.toList) := by
  cases e with
  | operation op =>
    rw [happen, map_id_perform]
    exact (List.filter_sublist.map _).append (s.map_id_makes? now op)
  | list => simp [happen, Event.id?]
  | work id f =>
    rw [happen, Shifts.map_id_modify]
    · exact List.sublist_append_left _ _
    · exact fun _ h ↦ h

private theorem timeToLive_happen (s : Store) (now : Int) (e : Event) :
    (s.happen now e).timeToLive = s.timeToLive := by
  cases e with
  | operation op => exact s.timeToLive_perform now op
  | list | work _ _ => rfl

/-- Only asking for a session touches it, and the event that is to make it. -/
theorem of_touched? {id : String} (h : s.touched? now e = some id) :
    e = .operation (.get id) ∨ e.id? = some id := by
  cases e with
  | operation op =>
    cases op with
    | create id' format =>
      right
      obtain ⟨_, -, hid⟩ := Option.map_eq_some_iff.mp h
      exact congrArg some hid
    | get id' =>
      left
      obtain ⟨y, hy, rfl⟩ := Option.map_eq_some_iff.mp h
      rw [id_of_find? hy]
    | delete _ | expire | setLimit _ => cases h
  | list | work _ _ => cases h

private theorem touched?_operation (fresh : ∀ id ∈ op.id?, id ∉ s.live.map Session.id)
    (h : x ∈ (s.perform now op).live) (ht : op.touches x.id) :
    s.touched? now (.operation op) = some x.id := by
  cases op with
  | create id format =>
    obtain rfl : id = x.id := beq_iff_eq.mp ht
    cases hc : s.create x.id now format with
    | ok s' => rw [touched?, hc]; rfl
    | error e =>
      rw [perform, hc] at h
      exact absurd (List.mem_map_of_mem h) (fresh x.id rfl)
  | get id =>
    obtain rfl : id = x.id := beq_iff_eq.mp ht
    obtain ⟨y, hy⟩ := Option.isSome_iff_exists.mp (isSome_find?_iff.mpr (List.mem_map_of_mem h))
    exact Option.map_eq_some_iff.mpr ⟨y, hy, id_of_find? hy⟩
  | delete _ | expire | setLimit _ => cases ht

private theorem of_mem_live_happen (fresh : ∀ id ∈ e.id?, id ∉ s.live.map Session.id)
    (h : x ∈ (s.happen now e).live) :
    if s.touched? now e = some x.id then x.updated = now
    else ∃ y ∈ s.live, y.id = x.id ∧ y.updated = x.updated := by
  cases e with
  | operation op =>
    have hx := of_mem_live_perform fresh h
    cases ht : op.touches x.id with
    | true =>
      rw [if_pos ht] at hx
      rwa [if_pos (touched?_operation fresh h ht)]
    | false =>
      rw [ht, if_neg Bool.false_ne_true] at hx
      have hn : s.touched? now (.operation op) ≠ some x.id := by
        intro hs
        rcases of_touched? hs with he | hid
        · obtain rfl := Event.operation.inj he
          simp [Operation.touches] at ht
        · exact fresh x.id hid (List.mem_map_of_mem hx)
      rw [if_neg hn]
      exact ⟨x, hx, rfl, rfl⟩
  | list => exact ⟨x, h, rfl, rfl⟩
  | work id f =>
    obtain ⟨y, hy, rfl⟩ := List.mem_map.mp h
    rw [if_neg (by simp [touched?])]
    refine ⟨y, hy, ?_⟩
    by_cases hid : y.id = id <;> simp [hid]

end Happen

/-! ### Courses of events -/

/-- The store after a course of events, each at its time. -/
def through (s : Store) (events : List (Int × Event)) : Store :=
  events.foldl (fun s (now, e) ↦ s.happen now e) s

/-- The ids of the sessions that a course of events touches, each with the time, in order. -/
def activity (s : Store) : List (Int × Event) → List (String × Int)
  | [] => []
  | (now, e) :: events =>
    (s.touched? now e).toList.map (·, now) ++ (s.happen now e).activity events

/-- The time at which a course of events touches the session of an id last. -/
def lastActive? (s : Store) (events : List (Int × Event)) (id : String) : Option Int :=
  ((s.activity events).filter (·.1 == id)).getLast?.map Prod.snd

section Courses

variable (s : Store) (events later : List (Int × Event)) (now : Int) (e : Event)

/-- A course in two parts is the second part after the first. -/
theorem through_append : s.through (events ++ later) = (s.through events).through later :=
  List.foldl_append

/-- A course goes on with its next event. -/
theorem through_concat : s.through (events ++ [(now, e)]) = (s.through events).happen now e :=
  s.through_append events [(now, e)]

/-- What the second part of a course touches comes after what the first does. -/
theorem activity_append :
    s.activity (events ++ later) = s.activity events ++ (s.through events).activity later := by
  induction events generalizing s with
  | nil => rfl
  | cons first events ih =>
    rw [List.cons_append, activity, activity, ih, List.append_assoc]
    rfl

private theorem lastActive?_concat (id : String) :
    s.lastActive? (events ++ [(now, e)]) id =
      if (s.through events).touched? now e = some id then some now
      else s.lastActive? events id := by
  rw [lastActive?, activity_append, activity, activity, List.append_nil, List.filter_append]
  cases ht : (s.through events).touched? now e with
  | none => simp [lastActive?]
  | some id' =>
    by_cases hid : id' = id
    · simp [hid]
    · simp [hid, lastActive?]

/-- No course of events changes how long sessions may be idle. -/
theorem timeToLive_through : (s.through events).timeToLive = s.timeToLive := by
  induction events generalizing s with
  | nil => rfl
  | cons first events ih => exact (ih _).trans (s.timeToLive_happen first.1 first.2)

variable {s events later}

private theorem of_mem_activity {id : String} (h : (id, now) ∈ s.activity events) :
    (now, .operation (.get id)) ∈ events ∨ id ∈ Event.given events := by
  induction events generalizing s with
  | nil => cases h
  | cons first events ih =>
    obtain ⟨time, e⟩ := first
    rw [activity, List.mem_append] at h
    rw [← List.singleton_append, Event.given_append, Event.given_singleton]
    rcases h with h | h
    · obtain ⟨_, hid, he⟩ := List.mem_map.mp h
      obtain ⟨rfl, rfl⟩ := Prod.mk.inj he
      rcases of_touched? (Option.mem_toList.mp hid) with he | he
      · exact .inl (List.mem_append_left _ (List.mem_singleton.mpr (by rw [he])))
      · exact .inr (List.mem_append_left _ (Option.mem_toList.mpr he))
    · exact (ih h).imp (List.mem_append_right _) (List.mem_append_right _)

private theorem lastActive?_append {id : String} (given : id ∉ Event.given later)
    (asked : ∀ time, (time, .operation (.get id)) ∉ later) :
    s.lastActive? (events ++ later) id = s.lastActive? events id := by
  have hnone : ((s.through events).activity later).filter (·.1 == id) = [] := by
    rw [List.filter_eq_nil_iff]
    rintro ⟨id', time⟩ hm he
    obtain rfl : id' = id := beq_iff_eq.mp he
    rcases of_mem_activity time hm with h | h
    · exact asked time h
    · exact given h
  rw [lastActive?, activity_append, List.filter_append, hnone, List.append_nil, lastActive?]

/-- In a store that started empty only given ids live. -/
theorem map_id_through_sublist (empty : s.live = []) (events : List (Int × Event)) :
    ((s.through events).live.map Session.id).Sublist (Event.given events) := by
  induction events using List.reverseRecOn with
  | nil => simp [through, empty]
  | append_singleton events last ih =>
    rw [through_concat, Event.given_append, Event.given_singleton]
    exact ((s.through events).map_id_happen_sublist last.1 last.2).trans
      (ih.append (List.Sublist.refl _))

private theorem lastActive?_of_mem_live (empty : s.live = []) (fresh : (Event.given events).Nodup)
    {x : Session} (h : x ∈ (s.through events).live) :
    s.lastActive? events x.id = some x.updated := by
  -- A touch by the last event hides those before it, so the course is taken apart from its end.
  induction events using List.reverseRecOn generalizing x with
  | nil => simp [through, empty] at h
  | append_singleton events last ih =>
    obtain ⟨now, e⟩ := last
    rw [Event.given_append, Event.given_singleton] at fresh
    have hnew : ∀ id ∈ e.id?, id ∉ (s.through events).live.map Session.id := by
      intro id hid hl
      have hg := (map_id_through_sublist empty events).subset hl
      exact List.disjoint_of_nodup_append fresh hg (Option.mem_toList.mpr hid)
    rw [through_concat] at h
    have hx := of_mem_live_happen hnew h
    rw [lastActive?_concat]
    split at hx
    · next ht => rw [if_pos ht, hx]
    · next ht =>
      obtain ⟨y, hy, hid, hupdated⟩ := hx
      rw [if_neg ht, ← hid, ← hupdated]
      exact ih fresh.of_append_left hy

end Courses

/-! ### Sessions that leave one by one -/

private theorem filter_id_eq {sessions : List Session} (h : (sessions.map Session.id).Nodup)
    {x : Session} (hx : x ∈ sessions) : sessions.filter (·.id == x.id) = [x] := by
  induction sessions with
  | nil => cases hx
  | cons y ys ih =>
    obtain ⟨hy, hys⟩ := List.nodup_cons.mp h
    rcases List.mem_cons.mp hx with rfl | hx
    · have hnone : ys.filter (·.id == x.id) = [] := by
        rw [List.filter_eq_nil_iff]
        intro z hz he
        exact hy (beq_iff_eq.mp he ▸ List.mem_map_of_mem hz)
      rw [List.filter_cons, if_pos BEq.rfl, hnone]
    · have hne : ¬ (y.id == x.id) = true :=
        fun he ↦ hy (beq_iff_eq.mp he ▸ List.mem_map_of_mem hx)
      rw [List.filter_cons, if_neg hne, ih hys hx]

private theorem foldl_delete {s : Store} (h : (s.live.map Session.id).Nodup)
    {sessions : List Session} (hs : sessions.Sublist s.live) :
    (sessions.map Session.id).foldl (fun s id ↦ (s.delete id).2) s =
      { s with
        live := s.live.filter (·.id ∉ sessions.map Session.id)
        left := s.left ++ sessions.map .closed } := by
  induction sessions generalizing s with
  | nil => simp
  | cons x xs ih =>
    have hx : x ∈ s.live := hs.subset List.mem_cons_self
    have hnew : x.id ∉ xs.map Session.id := (List.nodup_cons.mp ((hs.map _).nodup h)).1
    have hleft : (s.delete x.id).2.left = s.left ++ [x.closed] := by
      rw [delete, dismiss, filter_id_eq h hx]
      rfl
    have hxs : xs.Sublist (s.delete x.id).2.live := by
      have hf := (List.sublist_of_cons_sublist hs).filter (!·.id == x.id)
      rwa [List.filter_eq_self.mpr] at hf
      intro y hy
      have hne : y.id ≠ x.id := fun he ↦ hnew (he ▸ List.mem_map_of_mem hy)
      simp [hne]
    have hlive : (s.delete x.id).2.live.filter (·.id ∉ xs.map Session.id) =
        s.live.filter (·.id ∉ (x :: xs).map Session.id) := by
      rw [delete, dismiss, List.filter_filter]
      apply List.filter_congr
      intro y _
      by_cases he : y.id = x.id <;> simp [he]
    rw [List.map_cons, List.foldl_cons, ih ((List.filter_sublist.map _).nodup h) hxs, hlive, hleft,
      List.append_assoc]
    rfl

private theorem dismiss_eq_foldl_delete {s : Store} (h : (s.live.map Session.id).Nodup)
    (leaves : Session → Bool) :
    s.dismiss leaves =
      ((s.live.filter leaves).map Session.id).foldl (fun s id ↦ (s.delete id).2) s := by
  have hlive : s.live.filter (!leaves ·) =
      s.live.filter (·.id ∉ (s.live.filter leaves).map Session.id) := by
    apply List.filter_congr
    intro x hx
    simp only [id_mem_map_filter h hx, decide_not, Bool.decide_eq_true]
  rw [foldl_delete h List.filter_sublist, ← hlive]
  rfl

/-! ### Expiry over a course of events -/

/-- A store starts empty, and ids are fresh whatever happens to it. Each session that lives was last
active when it was last touched. Expiry takes those last touched longer ago than they may be idle,
tells how many, and has the streams of these start over, as if they were deleted one by one. The
others stay as they are, in their order. Until a session is asked for again nothing makes it active,
be it a list, a session that is made or refused, or what is done about other ids. -/
theorem expire_takes_idle (timeToLive limit : Int) {events : List (Int × Event)}
    (fresh : (Event.given events).Nodup) :
    let start : Store := { timeToLive, limit }
    let s := start.through events
    (∀ x ∈ s.live, start.lastActive? events x.id = some x.updated) ∧
      (∀ now,
        let idle (x : Session) : Bool :=
          (start.lastActive? events x.id).any (timeToLive < now - ·)
        (s.expire now).1 = (s.live.filter idle).length ∧
          (s.expire now).2 =
            { s with
              live := s.live.filter (!idle ·)
              left := s.left ++
                (s.live.filter idle).map fun x ↦ { x with link := x.link.restart } } ∧
          (s.expire now).2 =
            ((s.live.filter idle).map Session.id).foldl (fun s id ↦ (s.delete id).2) s) ∧
      ∀ later, (Event.given (events ++ later)).Nodup → ∀ x ∈ s.live,
        (∀ time, (time, .operation (.get x.id)) ∉ later) →
          ∀ y ∈ (s.through later).live, y.id = x.id → y.updated = x.updated := by
  intro start s
  have empty : start.live = [] := rfl
  have hactive : ∀ x ∈ s.live, start.lastActive? events x.id = some x.updated :=
    fun x hx ↦ lastActive?_of_mem_live empty fresh hx
  have hgiven := map_id_through_sublist empty events
  refine ⟨hactive, ?_, ?_⟩
  · intro now idle
    have hidle : ∀ x ∈ s.live, s.isExpired now x = idle x := by
      intro x hx
      rw [isExpired, start.timeToLive_through events]
      exact congrArg (Option.any (timeToLive < now - ·)) (hactive x hx).symm
    have hgo : s.live.filter (s.isExpired now) = s.live.filter idle := List.filter_congr hidle
    have hstay : s.live.filter (!s.isExpired now ·) = s.live.filter (!idle ·) :=
      List.filter_congr fun x hx ↦ congrArg not (hidle x hx)
    refine ⟨congrArg List.length hgo, ?_, ?_⟩
    · rw [expire, dismiss, hgo, hstay]
      rfl
    · rw [expire, dismiss_eq_foldl_delete (hgiven.nodup fresh), hgo]
  · intro later fresh' x hx asked y hy hid
    have hy' : y ∈ (start.through (events ++ later)).live := by rwa [through_append]
    have hnew : x.id ∉ Event.given later := by
      rw [Event.given_append] at fresh'
      exact List.disjoint_of_nodup_append fresh' (hgiven.subset (List.mem_map_of_mem hx))
    have hlast := lastActive?_of_mem_live empty fresh' hy'
    rw [hid, lastActive?_append hnew asked, hactive x hx] at hlast
    exact (Option.some.inj hlast).symm

/-- The clock goes back and a session is refused. One session is listed, its stream works and
another is asked for in vain, and it expires; one that was idle for just as long as it may be
stays. -/
theorem expire_takes_idle_past_bound :
    let events : List (Int × Event) :=
      [(100, .operation (.create "a" .webVtt)), (90, .operation (.create "b" .plain)),
        (95, .operation (.create "c" .subRip)), (150, .operation (.get "a")),
        (149, .operation (.get "c")), (155, .work "b" Link.restart), (80, .operation .expire)]
    let later : List (Int × Event) := [(156, .list), (157, .operation (.create "d" .webVtt))]
    let s := ({ timeToLive := 60, limit := 2 } : Store).through events
    (Event.given (events ++ later)).Nodup ∧ s.live.map Session.id = ["a", "b"] ∧
      (s.expire 210).1 = 1 ∧ (s.expire 210).2.live.map Session.id = ["a"] ∧
      (s.expire 210).2 = (s.delete "b").2 ∧
      ∀ y ∈ (s.through later).live, y.id = "b" → y.updated = 90 := by
  intro events later s
  have fresh : (Event.given events).Nodup := by decide
  have fresh' : (Event.given (events ++ later)).Nodup := by decide
  obtain ⟨hactive, hexpire, hlater⟩ := expire_takes_idle 60 2 fresh
  obtain ⟨hcount, hstore, hdeleted⟩ := hexpire 210
  have hids : s.live.map Session.id = ["a", "b"] := by decide
  have hb : "b" ∈ s.live.map Session.id := hids ▸ by decide
  obtain ⟨x, hx, he⟩ := List.mem_map.mp hb
  have hx90 : x.updated = 90 := by
    have ha := hactive x hx
    rw [he] at ha
    exact Option.some.inj (ha.symm.trans (by decide))
  refine ⟨fresh', hids, hcount.trans (by decide),
    (congrArg (·.live.map Session.id) hstore).trans (by decide), hdeleted, ?_⟩
  intro y hy hid
  rw [← hx90]
  exact hlater later fresh' x hx (by simp [later]) y hy (hid.trans he.symm)

end Line21.Store
