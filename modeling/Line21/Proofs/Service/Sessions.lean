import Line21.Proofs.Service.Requests
import Line21.Proofs.Stream.Course
import Mathlib.Data.List.Nodup

/-!
# Sessions over the course of requests

A request that makes no session lets those that live go on or leave, and brings none back. What
every session has in common is kept by such a shift: a session that lives has agreed on its format,
and the stream of a session that has left is fresh. The ids of the sessions that live are among
those that clients were given, so that no two sessions have one id while ids are fresh.
-/

namespace Line21

namespace Store

/-! ### What the store holds -/

/-- A session is made exactly when there is room, and stands behind those that live. -/
theorem create_eq_ok_iff {s s' : Store} {id : String} {now : Int} {format : Format} :
    s.create id now format = .ok s' ↔
      s.live.length < s.limit ∧ s' = { s with live := s.live ++ [.opened id format now] } := by
  unfold create
  by_cases h : s.limit ≤ s.live.length
  · have hn : ¬ (s.live.length : Int) < s.limit := by omega
    simp [h, hn]
  · have hl : (s.live.length : Int) < s.limit := by omega
    simp [h, hl, eq_comm]

/-- The sessions that live have agreed on their formats, and the streams of those that have left
are fresh. -/
structure Sound (s : Store) : Prop where
  agreed : ∀ x ∈ s.live, x.link.stream.format = some x.format
  restarted : ∀ x ∈ s.left, x.link.stream = .fresh

/-- A store that holds nothing is sound. -/
theorem sound_empty (timeToLive limit : Int) : ({ timeToLive, limit } : Store).Sound := by
  constructor <;> simp

/-- A session is made with its format agreed upon. -/
theorem Sound.create {s s' : Store} {id : String} {now : Int} {format : Format} (h : s.Sound)
    (hc : s.create id now format = .ok s') : s'.Sound := by
  obtain ⟨-, rfl⟩ := create_eq_ok_iff.mp hc
  constructor
  · intro x hx
    rcases List.mem_append.mp hx with hx | hx
    · exact h.agreed x hx
    · obtain rfl := List.mem_singleton.mp hx
      exact Link.format_opened format
  · exact h.restarted

/-- Sessions may be changed to sessions that have agreed on their formats. -/
theorem Sound.modify {s : Store} {id : String} {f : Session → Session} (h : s.Sound)
    (hf : ∀ x ∈ s.live, x.id = id → (f x).link.stream.format = some (f x).format) :
    (s.modify id f).Sound := by
  constructor
  · intro x hx
    obtain ⟨y, hy, rfl⟩ := List.mem_map.mp hx
    by_cases hid : y.id = id
    · simpa [hid] using hf y hy hid
    · simpa [hid] using h.agreed y hy
  · exact h.restarted

/-- Sessions that leave have their streams start over. -/
theorem Sound.dismiss {s : Store} (h : s.Sound) (leaves : Session → Bool) :
    (s.dismiss leaves).Sound := by
  constructor
  · intro x hx
    exact h.agreed x (mem_live_dismiss.mp hx).1
  · intro x hx
    rcases List.mem_append.mp hx with hx | hx
    · exact h.restarted x hx
    · obtain ⟨y, -, rfl⟩ := List.mem_map.mp hx
      rfl

/-- What becomes of a store while no session is made. A session that is changed keeps its id and
takes over the format of a session that lives, as its stream does; others leave. -/
inductive Shifts (s : Store) : Store → Prop
  | refl : Shifts s s
  | modify {t : Store} {id : String} {f : Session → Session} (before : Shifts s t)
    (id_eq : ∀ x, x.id = id → (f x).id = id)
    (agreed : ∀ x ∈ t.live, x.id = id → ∃ y ∈ t.live, (f x).format = y.format ∧
      (f x).link.stream.format = y.link.stream.format) : Shifts s (t.modify id f)
  | dismiss {t : Store} (before : Shifts s t) (leaves : Session → Bool) :
    Shifts s (t.dismiss leaves)

namespace Shifts

variable {s t u : Store}

private theorem trans (h : s.Shifts t) (h' : t.Shifts u) : s.Shifts u := by
  induction h' with
  | refl => exact h
  | modify _ id_eq agreed ih => exact ih.modify id_eq agreed
  | dismiss _ leaves ih => exact ih.dismiss leaves

/-- A shift keeps a store sound. -/
theorem sound (h : s.Shifts t) (hs : s.Sound) : t.Sound := by
  induction h with
  | refl => exact hs
  | modify _ _ agreed ih =>
    apply ih.modify
    intro x hx hid
    obtain ⟨y, hy, hformat, hstream⟩ := agreed x hx hid
    rw [hstream, hformat]
    exact ih.agreed y hy
  | dismiss _ leaves ih => exact ih.dismiss leaves

/-- Changing sessions under their ids leaves the ids. -/
theorem map_id_modify {id : String} {f : Session → Session} (h : ∀ x, x.id = id → (f x).id = id)
    (s : Store) : (s.modify id f).live.map Session.id = s.live.map Session.id := by
  rw [Store.modify, List.map_map]
  apply List.map_congr_left
  intro x _
  by_cases hid : x.id = id
  · simp [hid, h x hid]
  · simp [hid]

private theorem map_id_sublist (h : s.Shifts t) :
    (t.live.map Session.id).Sublist (s.live.map Session.id) := by
  induction h with
  | refl => exact List.Sublist.refl _
  | modify _ id_eq _ ih =>
    rw [map_id_modify id_eq]
    exact ih
  | dismiss _ _ ih => exact (List.filter_sublist.map _).trans ih

private theorem limit_eq (h : s.Shifts t) : t.limit = s.limit := by
  induction h with
  | refl => rfl
  | modify _ _ _ ih | dismiss _ _ ih => exact ih

/-- A session that lives no more has left. -/
theorem exists_mem_left (h : s.Shifts t) {id : String} (hid : id ∈ s.live.map Session.id) :
    id ∈ t.live.map Session.id ∨ id ∈ t.left.map Session.id := by
  induction h with
  | refl => exact .inl hid
  | modify _ id_eq _ ih =>
    rw [map_id_modify id_eq]
    exact ih
  | @dismiss t _ leaves ih =>
    rcases ih with h | h
    · obtain ⟨x, hx, rfl⟩ := List.mem_map.mp h
      cases hl : leaves x with
      | false => exact .inl (List.mem_map.mpr ⟨x, mem_live_dismiss.mpr ⟨hx, hl⟩, rfl⟩)
      | true =>
        have hm : x.closed ∈ (t.dismiss leaves).left := by
          simp only [Store.dismiss, List.mem_append]
          exact .inr (List.mem_map.mpr ⟨x, List.mem_filter.mpr ⟨hx, hl⟩, rfl⟩)
        exact .inr (List.mem_map.mpr ⟨x.closed, hm, rfl⟩)
    · apply Or.inr
      simp only [Store.dismiss, List.map_append, List.mem_append]
      exact .inl h

end Shifts

/-- A session that is found lives. -/
theorem mem_of_find? {s : Store} {id : String} {x : Session} (h : s.find? id = some x) :
    x ∈ s.live := List.mem_of_find?_eq_some h

private theorem find?_dismiss_of_leaves {s : Store} (hn : (s.live.map Session.id).Nodup)
    {id : String} {x : Session} (h : s.find? id = some x) {leaves : Session → Bool}
    (hl : leaves x = true) :
    (s.dismiss leaves).find? id = none := by
  rw [find?, List.find?_eq_none]
  intro y hy he
  obtain ⟨hy, hstays⟩ := mem_live_dismiss.mp hy
  have hid : y.id = x.id := (beq_iff_eq.mp he).trans (id_of_find? h).symm
  rw [List.inj_on_of_nodup_map hn hy (mem_of_find? h) hid, hl] at hstays
  cases hstays

/-- A session is found under an id exactly when one lives that has it. -/
theorem isSome_find?_iff {s : Store} {id : String} :
    (s.find? id).isSome ↔ id ∈ s.live.map Session.id := by
  simp [find?, List.find?_isSome, List.mem_map]

end Store

/-! ### Ids that clients are given -/

namespace Request

/-- The id of the stream that a request makes, if it makes one. -/
def makes? : Request → Option String
  | .create id _ => some id
  | .health | .formats | .list | .get _ | .push _ _ | .flush _ | .finish _ | .delete _ | .cleanup
  | .convert _ => none

/-- The ids of the streams that requests are to make, in order. -/
def made (requests : List (Int × Request)) : List String := requests.filterMap (·.2.makes?)

/-- A request makes the stream that it is about, if it makes one. -/
theorem id?_eq_of_makes? {id : String} {r : Request} (h : r.makes? = some id) :
    r.id? = some id := by
  cases r with
  | create _ _ => exact h
  | _ => cases h

/-- The streams of two spans are those of the first and then those of the second. -/
theorem made_append (requests later : List (Int × Request)) :
    made (requests ++ later) = made requests ++ made later := List.filterMap_append

/-- What one request makes. -/
theorem made_singleton (now : Int) (r : Request) : made [(now, r)] = r.makes?.toList := by
  cases h : r.makes? <;> simp [made, h]

/-- The requests of two spans about a stream are those of the first and then those of the
second. -/
theorem about_append (id : String) (requests later : List (Int × Request)) :
    about id (requests ++ later) = about id requests ++ about id later := by
  simp [about]

end Request

namespace Service

open Store (Shifts id_of_find? mem_of_find?)

variable {store : Store}

/-! ### What a request does to the sessions -/

private theorem shifts_withSession {id : String} {now : Int}
    {f : Store → Session → Store × Response}
    (hf : ∀ (store : Store) (s : Session), store.find? id = some s → store.Shifts (f store s).1) :
    store.Shifts (withSession store id now f).1 := by
  have hg : store.Shifts (store.get id now).2 :=
    .modify .refl (fun _ h ↦ h) fun x hx _ ↦ ⟨x, hx, rfl, rfl⟩
  rw [withSession]
  split
  · next store' h =>
    rw [h] at hg
    exact hg
  · next s store' h =>
    have hs : (store.get id now).2.find? id = some s := congrArg Prod.fst h
    rw [h] at hg hs
    exact hg.trans (hf store' s hs)

private theorem shifts_answer {s : Session} {link : Link Receiver Collector}
    (h : ∃ y ∈ store.live, s.format = y.format ∧ link.stream.format = y.link.stream.format)
    (result : Except StreamError Unit) : store.Shifts (answer store s link result).1 := by
  have hm (s' : Session) (hid : s'.id = s.id) (hformat : s'.format = s.format)
      (hstream : s'.link.stream = link.stream) : store.Shifts (store.modify s.id fun _ ↦ s') := by
    apply Shifts.modify .refl
    · intro _ _
      exact hid
    · intro _ _ _
      rw [hformat, hstream]
      exact h
  unfold answer
  cases result with
  | ok _ => exact hm _ rfl rfl rfl
  | error e =>
    cases e with
    | number error => exact hm _ rfl rfl rfl
    | notNegotiated | missingTime | refused _ | offer _ =>
      dsimp only
      split
      · exact (hm { s with link } rfl rfl rfl).dismiss _
      · exact hm _ rfl rfl rfl

/-- A request that makes no session shifts the store. -/
theorem shifts_handle {r : Request} (hr : r.makes? = none) (now : Int) :
    store.Shifts (handle store now r).1 := by
  cases r with
  | health | formats | list | convert _ => exact .refl
  | create id body => cases hr
  | get id => exact shifts_withSession fun _ _ _ ↦ .refl
  | push id body =>
    rw [handle]
    split
    · exact .refl
    · apply shifts_withSession
      intro store' s hs
      rw [push]
      apply shifts_answer
      exact ⟨s, mem_of_find? hs, rfl, s.link.format_accept _⟩
  | flush id =>
    apply shifts_withSession
    intro store' s hs
    exact shifts_answer ⟨s, mem_of_find? hs, rfl, s.link.format_signal .flush⟩ _
  | finish id =>
    apply shifts_withSession
    intro store' s hs
    exact shifts_answer ⟨s, mem_of_find? hs, rfl, s.link.format_signal .finish⟩ _
  | delete id =>
    have hd : store.Shifts (store.delete id).2 := .dismiss .refl _
    rw [handle]
    split
    · next h =>
      rw [h] at hd
      exact hd
    · next h =>
      rw [h] at hd
      exact hd
  | cleanup => exact .dismiss .refl _

/-- A request for a stream makes a session, or leaves the store as it was. -/
theorem handle_create_cases (store : Store) (now : Int) (id : String) (body : Json) :
    (handle store now (.create id body)).1 = store ∨
      ∃ format, body.format? = some format ∧
        store.create id now format = .ok (handle store now (.create id body)).1 := by
  rw [handle]
  split
  · exact .inl rfl
  · next format hb =>
    split
    · exact .inl rfl
    · next store' hc => exact .inr ⟨format, hb, hc⟩

/-- While ids are told apart, a request about another stream leaves a session as it was, or takes
it away. -/
theorem find?_handle_cases (hn : (store.live.map Session.id).Nodup) {id : String} {r : Request}
    (hr : r.id? ≠ some id) (now : Int) :
    (handle store now r).1.find? id = store.find? id ∨
      (handle store now r).1.find? id = none := by
  by_cases hs : ∀ x ∈ store.find? id, r = .cleanup → store.isExpired now x = false
  · exact .inl (find?_handle hr hs)
  · push Not at hs
    obtain ⟨x, hx, rfl, he⟩ := hs
    rw [ne_eq, Bool.not_eq_false] at he
    exact .inr (Store.find?_dismiss_of_leaves hn hx he)

/-- Every request keeps a store sound. -/
theorem sound_handle (h : store.Sound) (now : Int) (r : Request) :
    (handle store now r).1.Sound := by
  cases hr : r.makes? with
  | none => exact (shifts_handle hr now).sound h
  | some id =>
    cases r with
    | create id' body =>
      rcases handle_create_cases store now id' body with hs | ⟨format, -, hs⟩
      · rw [hs]
        exact h
      · exact h.create hs
    | _ => cases hr

/-- No request changes the limit. -/
theorem limit_handle (store : Store) (now : Int) (r : Request) :
    (handle store now r).1.limit = store.limit := by
  cases hr : r.makes? with
  | none => exact (shifts_handle hr now).limit_eq
  | some id =>
    cases r with
    | create id' body =>
      rcases handle_create_cases store now id' body with hs | ⟨format, -, hs⟩
      · rw [hs]
      · rw [(Store.create_eq_ok_iff.mp hs).2]
    | _ => cases hr

/-- The ids of the sessions that live after a request had sessions before, but for that of a
session which it makes. -/
theorem map_id_handle_sublist (store : Store) (now : Int) (r : Request) :
    ((handle store now r).1.live.map Session.id).Sublist
      (store.live.map Session.id ++ r.makes?.toList) := by
  cases hr : r.makes? with
  | none => simpa using (shifts_handle hr now).map_id_sublist
  | some id =>
    cases r with
    | create id' body =>
      obtain rfl : id' = id := Option.some.inj hr
      rcases handle_create_cases store now id' body with hs | ⟨format, -, hs⟩
      · rw [hs]
        exact List.sublist_append_left _ _
      · obtain ⟨-, hs⟩ := Store.create_eq_ok_iff.mp hs
        rw [hs, List.map_append]
        exact List.Sublist.refl _
    | _ => cases hr

/-! ### Requests one after the other -/

/-- The store after requests were answered in order, each at its time. -/
def run (store : Store) (requests : List (Int × Request)) : Store :=
  requests.foldl (fun store (now, r) ↦ (handle store now r).1) store

/-- Requests of two spans are answered one span after the other. -/
theorem run_append (store : Store) (requests later : List (Int × Request)) :
    run store (requests ++ later) = run (run store requests) later := List.foldl_append

/-- The answers to requests of two spans are those of the first and then those of the second. -/
theorem answersTo_append (id : String) (store : Store) (requests later : List (Int × Request)) :
    answersTo id store (requests ++ later) =
      answersTo id store requests ++ answersTo id (run store requests) later := by
  induction requests generalizing store with
  | nil => rfl
  | cons first requests ih =>
    obtain ⟨now, r⟩ := first
    have hr : run store ((now, r) :: requests) = run (handle store now r).1 requests := rfl
    rw [List.cons_append, answersTo, answersTo, ih, hr]
    split <;> rfl

/-- Each request about a stream is answered. -/
theorem length_answersTo (id : String) (store : Store) (requests : List (Int × Request)) :
    (answersTo id store requests).length = (Request.about id requests).length := by
  induction requests generalizing store with
  | nil => rfl
  | cons first requests ih =>
    obtain ⟨now, r⟩ := first
    rw [answersTo, Request.about_cons]
    split <;> simp [ih]

/-- Requests of any kind keep a store sound. -/
theorem sound_run (h : store.Sound) (requests : List (Int × Request)) :
    (run store requests).Sound := by
  induction requests generalizing store with
  | nil => exact h
  | cons first requests ih => exact ih (sound_handle h first.1 first.2)

/-- The ids of the sessions that live were there or were given to clients, in this order. -/
theorem map_id_run_sublist (store : Store) (requests : List (Int × Request)) :
    ((run store requests).live.map Session.id).Sublist
      (store.live.map Session.id ++ Request.made requests) := by
  induction requests generalizing store with
  | nil => simp [run, Request.made]
  | cons first requests ih =>
    obtain ⟨now, r⟩ := first
    rw [← List.singleton_append, Request.made_append, Request.made_singleton, ← List.append_assoc]
    exact (ih (handle store now r).1).trans
      ((map_id_handle_sublist store now r).append (List.Sublist.refl _))

end Service

end Line21
