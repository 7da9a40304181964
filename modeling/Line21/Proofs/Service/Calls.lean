import Line21.Proofs.Service.Sessions

/-!
# Requests that call a stream

A push, a flush and an end of a stream each pass a call on to the stream of a session. What becomes
of the session, and what is answered, depends on nothing but the session, the time and the call.
Other requests about a stream leave its state alone, or delete its session.
-/

namespace Line21

/-- The call that a request passes on to its stream, if its body can be read. -/
def Request.call? : Request → Option Call
  | .push _ body => body.captionUnit?.map .unit
  | .flush _ => some (.signal .flush)
  | .finish _ => some (.signal .finish)
  | .health | .formats | .list | .create _ _ | .get _ | .delete _ | .cleanup | .convert _ => none

/-- A request about a stream that makes none asks for it, or is a push that cannot be read. -/
theorem Request.asks_or_unread {id : String} {r : Request} (hid : r.id? = some id)
    (hm : r.makes? = none) :
    r.Asks id ∨ ∃ body, r = .push id body ∧ body.captionUnit? = none := by
  cases r with
  | get _ | flush _ | finish _ | delete _ => exact .inl (Option.some.inj hid)
  | push id' body =>
    obtain rfl : id' = id := Option.some.inj hid
    cases hb : body.captionUnit? with
    | none => exact .inr ⟨body, rfl, hb⟩
    | some u => exact .inl ⟨rfl, Option.isSome_iff_exists.mpr ⟨u, hb⟩⟩
  | create _ _ => cases hm
  | health | formats | list | cleanup | convert _ => cases hid

/-- Whether a call hands a unit in. -/
def Call.isUnit : Call → Bool
  | .unit _ => true
  | .caps _ | .signal _ | .transition _ => false

namespace Service

/-- What becomes of a session when its stream has been called, and the answer. -/
def settle (s : Session) : Except StreamError Unit → Option Session × Response
  | .ok () => (some (takeUnits s).2, .success 200 (.units s.id (takeUnits s).1))
  | .error (.number error) => (some s, .fault error)
  | .error e =>
    if isFatal e then (none, .refusal 422 e.message) else (some s, .refusal 500 e.message)

/-- What becomes of a session that passes a call on at a time, and the answer. -/
def pass (s : Session) (now : Int) (c : Call) : Option Session × Response :=
  settle { s with updated := now, unitsIn := s.unitsIn + c.isUnit.toNat, link := (s.link.call c).1 }
    ((s.link.call c).2.map fun _ ↦ ())

/-- What becomes of a session for which a call comes, if it can be read, and the answer. -/
def pass? (s : Session) (now : Int) : Option Call → Option Session × Response
  | some c => pass s now c
  | none => (some s, invalid)

/-- What becomes of a session when a request about it comes at a time, and the answer. No request
makes a session again. -/
def respond (s : Session) (now : Int) : Request → Option Session × Response
  | .get _ => (some { s with updated := now }, .success 200 (.stream (info s)))
  | .delete _ => (none, .success 204 .nothing)
  | r => pass? s now r.call?

variable {store : Store} {id : String} {s : Session}

private theorem answer_eq_settle (s : Session) (h : (store.find? s.id).isSome)
    (link : Link Receiver Collector) (result : Except StreamError Unit) :
    (answer store s link result).2 = (settle { s with link } result).2 ∧
      (answer store s link result).1.find? s.id = (settle { s with link } result).1 := by
  have hm (s' : Session) (hid : s'.id = s.id) :
      (store.modify s.id fun _ ↦ s').find? s.id = some s' := by
    obtain ⟨x, hx⟩ := Option.isSome_iff_exists.mp h
    rw [Store.find?_modify_self store fun _ _ ↦ hid, hx]
    rfl
  unfold answer settle
  cases result with
  | ok _ => exact ⟨rfl, hm _ rfl⟩
  | error e =>
    cases e with
    | number error => exact ⟨rfl, hm _ rfl⟩
    | notNegotiated | missingTime | refused _ | offer _ =>
      dsimp only
      split
      · exact ⟨rfl, Store.find?_dismiss_self _ s.id⟩
      · exact ⟨rfl, hm _ rfl⟩

private theorem map_none_map (result : Except StreamError Unit) :
    (result.map fun _ ↦ (none : Option Bool)).map (fun _ ↦ ()) = result := by
  cases result <;> rfl

private theorem map_some_map (result : Except StreamError Bool) :
    (result.map some).map (fun _ ↦ ()) = result.map fun _ ↦ () := by
  cases result <;> rfl

/-- A request that calls a stream has its session pass the call on. -/
theorem handle_of_call {r : Request} (hid : r.id? = some id) (h : store.find? id = some s)
    {c : Call} (hc : r.call? = some c) (now : Int) :
    (handle store now r).2 = (pass s now c).2 ∧
      (handle store now r).1.find? id = (pass s now c).1 := by
  obtain rfl := Store.id_of_find? h
  have hfound : ((store.get s.id now).2.find? s.id).isSome := by
    rw [Store.find?_get, h]
    rfl
  cases r with
  | push id' body =>
    obtain rfl : id' = s.id := Option.some.inj hid
    obtain ⟨u, hu, rfl⟩ := Option.map_eq_some_iff.mp hc
    rw [handle, hu]
    dsimp only
    rw [withSession_of_find? h, push, pass, Link.call]
    dsimp only
    rw [map_none_map]
    exact answer_eq_settle { s with updated := now, unitsIn := s.unitsIn + 1 } hfound _ _
  | flush id' | finish id' =>
    obtain rfl : id' = s.id := Option.some.inj hid
    obtain rfl := Option.some.inj hc
    rw [handle, withSession_of_find? h, signal, pass, Link.call]
    dsimp only
    rw [map_some_map]
    exact answer_eq_settle { s with updated := now } hfound _ _
  | _ => cases hc

/-- A push that cannot be read changes nothing. -/
theorem handle_of_unread {body : Json} (hb : body.captionUnit? = none) (id : String) (now : Int) :
    handle store now (.push id body) = (store, invalid) := by
  rw [handle, hb]

/-- A request about a session that is there is answered for that session, and what becomes of it is
found afterwards. -/
theorem handle_of_find? {r : Request} (hid : r.id? = some id) (h : store.find? id = some s)
    (hm : r.makes? = none) (now : Int) :
    (handle store now r).2 = (respond s now r).2 ∧
      (handle store now r).1.find? id = (respond s now r).1 := by
  cases r with
  | get id' =>
    obtain rfl : id' = id := Option.some.inj hid
    rw [handle, withSession_of_find? h]
    refine ⟨rfl, (Store.find?_get store id' now).trans ?_⟩
    rw [h]
    rfl
  | delete id' =>
    obtain rfl : id' = id := Option.some.inj hid
    have hd : store.delete id' = (true, (store.delete id').2) := by
      rw [Store.delete, h]
      rfl
    rw [handle, hd]
    exact ⟨rfl, Store.find?_dismiss_self store id'⟩
  | push id' body =>
    cases hb : body.captionUnit? with
    | none =>
      simp only [handle_of_unread hb, respond, pass?, Request.call?, hb, Option.map_none]
      exact ⟨trivial, h⟩
    | some u =>
      have hc : (Request.push id' body).call? = some (.unit u) := congrArg (Option.map _) hb
      simp only [respond, pass?, hc]
      exact handle_of_call hid h hc now
  | flush id' | finish id' => exact handle_of_call hid h rfl now
  | create id' body => cases hm
  | health | formats | list | cleanup | convert _ => cases hid

end Service

end Line21
