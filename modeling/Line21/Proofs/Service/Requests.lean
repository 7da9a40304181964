import Line21.Service.Basic

/-!
# Requests and the streams they are about

A request is about one stream at most. It leaves the sessions of all other streams as they were,
except that a cleanup takes those that have expired. A request that asks for a stream which is not
there finds nothing, and makes nothing. So of all that a service is asked in the course of time, a
client with a stream of its own sees what comes of its own requests.
-/

namespace Line21

/-! ### Sessions by their ids -/

namespace Store

/-- A session is found under its own id. -/
theorem id_of_find? {s : Store} {id : String} {x : Session} (h : s.find? id = some x) :
    x.id = id := by
  have hp := List.find?_some h
  exact beq_iff_eq.mp hp

/-- A session that is made under a fresh id is found under it, and the others are found as
before. -/
theorem find?_create {s s' : Store} {id : String} {now : Int} {format : Format}
    (h : s.create id now format = .ok s') (id' : String) :
    s'.find? id' =
      (s.find? id').or (if id = id' then some (.opened id format now) else none) := by
  rw [create] at h
  split at h
  · cases h
  · obtain rfl := Except.ok.inj h
    have hid : (Session.opened id format now).id = id := rfl
    simp only [find?, List.find?_append, List.find?_singleton, hid, beq_iff_eq]

/-- Changing a session shows under its id. -/
theorem find?_modify_self (s : Store) {id : String} {f : Session → Session}
    (hf : ∀ x, x.id = id → (f x).id = id) : (s.modify id f).find? id = (s.find? id).map f := by
  rw [find?, modify, find?]
  dsimp only
  induction s.live with
  | nil => rfl
  | cons x xs ih =>
    rw [List.map_cons, List.find?_cons, List.find?_cons]
    by_cases hx : x.id = id
    · rw [beq_iff_eq.mpr hx, if_pos rfl, beq_iff_eq.mpr (hf x hx)]
      rfl
    · rw [beq_false_of_ne hx, if_neg Bool.false_ne_true, beq_false_of_ne hx]
      exact ih

/-- Changing a session does not show under other ids. -/
theorem find?_modify_of_ne (s : Store) {id id' : String} (hne : id' ≠ id)
    {f : Session → Session} (hf : ∀ x, x.id = id' → (f x).id = id') :
    (s.modify id' f).find? id = s.find? id := by
  rw [find?, modify, find?]
  dsimp only
  induction s.live with
  | nil => rfl
  | cons x xs ih =>
    rw [List.map_cons, List.find?_cons, List.find?_cons, ih]
    by_cases hx : x.id = id'
    · rw [beq_iff_eq.mpr hx, if_pos rfl, hf x hx, hx, beq_false_of_ne hne]
    · rw [beq_false_of_ne hx, if_neg Bool.false_ne_true]

/-- Asking for a session finds it, and counts as its activity. -/
theorem find?_get (s : Store) (id : String) (now : Int) :
    (s.get id now).2.find? id = (s.find? id).map ({ · with updated := now }) :=
  find?_modify_self s fun _ h ↦ h

/-- A session that does not leave is found as before, and where none was found none is. -/
theorem find?_dismiss {s : Store} {id : String} {leaves : Session → Bool}
    (h : ∀ x ∈ s.find? id, leaves x = false) : (s.dismiss leaves).find? id = s.find? id := by
  rw [find?, dismiss]
  dsimp only
  rw [List.find?_filter]
  cases hx : s.find? id with
  | none =>
    rw [find?, List.find?_eq_none] at hx
    rw [List.find?_eq_none]
    intro x hm he
    exact hx x hm (decide_eq_true_eq.mp he).2
  | some x =>
    have hl := h x hx
    rw [find?, List.find?_eq_some_iff_append] at hx
    obtain ⟨hid, before, after, hlive, hbefore⟩ := hx
    rw [List.find?_eq_some_iff_append]
    refine ⟨decide_eq_true ⟨by rw [hl]; rfl, hid⟩, before, after, hlive, fun y hy ↦ ?_⟩
    have hn := hbefore y hy
    rw [Bool.not_eq_true'] at hn ⊢
    rw [hn]
    exact decide_eq_false fun h ↦ Bool.false_ne_true h.2

/-- When all the sessions of an id leave, none is found under it. -/
theorem find?_dismiss_self (s : Store) (id : String) :
    (s.dismiss (·.id == id)).find? id = none := by
  rw [find?, List.find?_eq_none]
  intro x hm he
  rw [(mem_live_dismiss.mp hm).2] at he
  cases he

end Store

/-! ### Requests about streams -/

namespace Request

/-- The id of the stream that a request is about, if it is about one. -/
def id? : Request → Option String
  | .create id _ | .get id | .push id _ | .flush id | .finish id | .delete id => some id
  | .health | .formats | .list | .cleanup | .convert _ => none

/-- A request that asks for the stream of an id, with a body that can be read. -/
def Asks (id : String) : Request → Prop
  | .get id' | .flush id' | .finish id' | .delete id' => id' = id
  | .push id' body => id' = id ∧ body.captionUnit?.isSome
  | .create _ _ | .health | .formats | .list | .cleanup | .convert _ => False

/-- The requests about the stream of an id, in order. -/
def about (id : String) (requests : List (Int × Request)) : List Request :=
  (requests.map Prod.snd).filter (·.id? == some id)

/-- A request is about the stream of an id or not. -/
theorem about_cons (id : String) (now : Int) (r : Request) (rest : List (Int × Request)) :
    about id ((now, r) :: rest) =
      if r.id? = some id then r :: about id rest else about id rest := by
  simp only [about, List.map_cons, List.filter_cons, beq_iff_eq]

end Request

namespace Service

open Store (id_of_find? find?_modify_self find?_modify_of_ne find?_get find?_dismiss
  find?_dismiss_self)

/-! ### What a request leaves as it was -/

section Frame

variable {store : Store} {id id' : String} {s : Session}

private theorem find?_withSession_of_ne (hne : id' ≠ id) {now : Int}
    {f : Store → Session → Store × Response}
    (hf : ∀ store s, s.id = id' → (f store s).1.find? id = store.find? id) :
    (withSession store id' now f).1.find? id = store.find? id := by
  have hm : (store.get id' now).2.find? id = store.find? id :=
    find?_modify_of_ne store hne fun _ h ↦ h
  rw [withSession]
  split
  · next store' hg =>
    rw [hg] at hm
    exact hm
  · next x store' hg =>
    have hx : (store.get id' now).2.find? id' = some x := congrArg Prod.fst hg
    rw [hg] at hm hx
    exact (hf store' x (id_of_find? hx)).trans hm

private theorem find?_answer_of_ne (hne : s.id ≠ id) (link : Link Receiver Collector)
    (result : Except StreamError Unit) :
    (answer store s link result).1.find? id = store.find? id := by
  have hm {s' : Session} (hs : s'.id = s.id) :
      (store.modify s.id fun _ ↦ s').find? id = store.find? id :=
    find?_modify_of_ne store hne fun _ _ ↦ hs
  have hd {store' : Store} (h : store'.find? id = store.find? id) :
      (store'.delete s.id).2.find? id = store.find? id := by
    refine (find?_dismiss fun x hx ↦ ?_).trans h
    rw [id_of_find? hx]
    exact beq_false_of_ne hne.symm
  unfold answer
  cases result with
  | ok _ => exact hm rfl
  | error e =>
    cases e with
    | number error => exact hm rfl
    | notNegotiated | missingTime | refused _ | offer _ =>
      dsimp only
      split
      · exact hd (hm rfl)
      · exact hm rfl

/-- A request leaves the sessions of other streams as they were, but for those that a cleanup
finds expired. -/
theorem find?_handle {now : Int} {r : Request} (hr : r.id? ≠ some id)
    (hc : ∀ x ∈ store.find? id, r = .cleanup → store.isExpired now x = false) :
    (handle store now r).1.find? id = store.find? id := by
  have hne {id' : String} (h : some id' ≠ some id) : id' ≠ id := fun he ↦ h (congrArg some he)
  cases r with
  | health | formats | list | convert _ => rfl
  | create id' body =>
    rw [handle]
    split
    · rfl
    · split
      · rfl
      · next format _ store' hs =>
        rw [Store.find?_create hs, if_neg (hne hr), Option.or_none]
  | get id' => exact find?_withSession_of_ne (hne hr) fun _ _ _ ↦ rfl
  | push id' body =>
    rw [handle]
    split
    · rfl
    · refine find?_withSession_of_ne (hne hr) fun store' s hs ↦ ?_
      exact find?_answer_of_ne (hs ▸ hne hr) _ _
  | flush id' | finish id' =>
    refine find?_withSession_of_ne (hne hr) fun store' s hs ↦ ?_
    exact find?_answer_of_ne (hs ▸ hne hr) _ _
  | delete id' =>
    have hd : (store.delete id').2.find? id = store.find? id := by
      refine find?_dismiss fun x hx ↦ ?_
      rw [id_of_find? hx]
      exact beq_false_of_ne (hne hr).symm
    rw [handle]
    split
    · next h =>
      rw [h] at hd
      exact hd
    · next h =>
      rw [h] at hd
      exact hd
  | cleanup => exact find?_dismiss fun x hx ↦ hc x hx rfl

/-- A request that asks for a stream which is not there is told so, and the stream is not there
afterwards. -/
theorem handle_of_find?_eq_none (h : store.find? id = none) (now : Int) {r : Request}
    (hr : r.Asks id) :
    (handle store now r).2 = notFound id ∧ (handle store now r).1.find? id = none := by
  have hs (f : Store → Session → Store × Response) :
      (withSession store id now f).2 = notFound id ∧
        (withSession store id now f).1.find? id = none := by
    have hg : (store.get id now).2.find? id = none := by
      rw [find?_get, h]
      rfl
    have he : store.get id now = (none, (store.get id now).2) := Prod.ext hg rfl
    rw [withSession, he]
    exact ⟨rfl, hg⟩
  cases r with
  | get id' | flush id' | finish id' =>
    obtain rfl : id' = id := hr
    exact hs _
  | push id' body =>
    obtain ⟨rfl, hb⟩ := hr
    obtain ⟨u, hu⟩ := Option.isSome_iff_exists.mp hb
    rw [handle, hu]
    exact hs _
  | delete id' =>
    obtain rfl : id' = id := hr
    rw [handle, Store.delete, h]
    exact ⟨rfl, find?_dismiss_self store id'⟩
  | create _ _ | health | formats | list | cleanup | convert _ => exact hr.elim

/-- Asking for a session that is there counts as activity, and goes on with it. -/
theorem withSession_of_find? (h : store.find? id = some s) (now : Int)
    (f : Store → Session → Store × Response) :
    withSession store id now f =
      f (store.get id now).2 { s with updated := now } := by
  have hg : (store.get id now).2.find? id = some { s with updated := now } := by
    rw [find?_get, h]
    rfl
  have he : store.get id now = (some { s with updated := now }, (store.get id now).2) :=
    Prod.ext hg rfl
  rw [withSession, he]

end Frame

/-! ### Requests in the course of time -/

/-- The answers to the requests about the stream of an id, while requests about all streams are
answered in order, each at its time. -/
def answersTo (id : String) (store : Store) : List (Int × Request) → List Response
  | [] => []
  | (now, r) :: rest =>
    if r.id? = some id then (handle store now r).2 :: answersTo id (handle store now r).1 rest
    else answersTo id (handle store now r).1 rest

/-- While requests are answered in order, no cleanup takes the session of an id. -/
def Spared (id : String) (store : Store) : List (Int × Request) → Prop
  | [] => True
  | (now, r) :: rest =>
    (∀ x ∈ store.find? id, r = .cleanup → store.isExpired now x = false) ∧
      Spared id (handle store now r).1 rest

/-- Where there is no cleanup no session is taken. -/
theorem spared_of_no_cleanup {id : String} {requests : List (Int × Request)}
    (h : ∀ timed ∈ requests, timed.2 ≠ .cleanup) (store : Store) : Spared id store requests := by
  induction requests generalizing store with
  | nil => trivial
  | cons timed requests ih =>
    obtain ⟨hne, hrest⟩ := List.forall_mem_cons.mp h
    exact ⟨fun _ _ hr ↦ absurd hr hne, ih hrest _⟩

/-- Up to the first request about a stream nothing happens to its session. What follows depends on
the session alone, so the requests about a stream can be followed one by one. -/
theorem answersTo_of_about {store : Store} {id : String} {requests : List (Int × Request)}
    (hs : Spared id store requests) {r : Request} {rs : List Request}
    (h : Request.about id requests = r :: rs) :
    ∃ store' now rest, store'.find? id = store.find? id ∧
      Request.about id rest = rs ∧ Spared id (handle store' now r).1 rest ∧
      answersTo id store requests =
        (handle store' now r).2 :: answersTo id (handle store' now r).1 rest := by
  induction requests generalizing store with
  | nil => cases h
  | cons first requests ih =>
    obtain ⟨now, r'⟩ := first
    obtain ⟨hfirst, hrest⟩ := hs
    rw [Request.about_cons] at h
    by_cases hid : r'.id? = some id
    · rw [if_pos hid] at h
      obtain ⟨rfl, habout⟩ := List.cons.inj h
      refine ⟨store, now, requests, rfl, habout, hrest, ?_⟩
      rw [answersTo, if_pos hid]
    · rw [if_neg hid] at h
      obtain ⟨store', now', rest, hfind, habout, hspared, hanswers⟩ := ih hrest h
      refine ⟨store', now', rest, hfind.trans (find?_handle hid hfirst), habout, hspared, ?_⟩
      rw [answersTo, if_neg hid]
      exact hanswers

/-- Where no request is about a stream there are no answers. -/
theorem answersTo_of_about_eq_nil {id : String} {requests : List (Int × Request)}
    (h : Request.about id requests = []) (store : Store) : answersTo id store requests = [] := by
  induction requests generalizing store with
  | nil => rfl
  | cons first requests ih =>
    obtain ⟨now, r⟩ := first
    rw [Request.about_cons] at h
    by_cases hid : r.id? = some id
    · rw [if_pos hid] at h
      cases h
    · rw [if_neg hid] at h
      rw [answersTo, if_neg hid]
      exact ih h _

/-- A client that asks for a stream which is not there is told so again and again. -/
theorem answersTo_of_find?_eq_none {store : Store} {id : String}
    {requests : List (Int × Request)} (hs : Spared id store requests)
    (h : store.find? id = none) (hr : ∀ r ∈ Request.about id requests, r.Asks id) :
    answersTo id store requests =
      List.replicate (Request.about id requests).length (notFound id) := by
  generalize hrs : Request.about id requests = rs at hr ⊢
  induction rs generalizing store requests with
  | nil => exact answersTo_of_about_eq_nil hrs store
  | cons r rs ih =>
    obtain ⟨store', now, rest, hfind, habout, hspared, hanswers⟩ := answersTo_of_about hs hrs
    obtain ⟨hresponse, hgone⟩ := handle_of_find?_eq_none (hfind.trans h) now
      (hr r List.mem_cons_self)
    rw [hanswers, hresponse, List.length_cons, List.replicate_succ,
      ih hspared hgone habout fun r' h' ↦ hr r' (List.mem_cons_of_mem r h')]

end Service

end Line21
