import Line21.Proofs.Service.Sessions
import Mathlib.Data.List.Induction
import Mathlib.Data.List.Nodup

/-!
# The life of sessions

Sessions are made, asked for and deleted, and they expire, while the limit of their store changes
and the clock goes forth and back. What one operation does comes down to three lists: the session
that it makes, the sessions that it takes away, and those that live on. Main statement: whatever
was done to a store that started empty, the sessions that live are those made and not gone since,
all agreed on their formats, and they are listed by age.
-/

namespace Line21

/-- A session as it was made, but for what its stream has done since. -/
def Session.asMade (x : Session) : Session := { x with updated := x.created }

namespace Store

/-- What is done to a store. -/
inductive Operation
  | create (id : String) (format : Format)
  | get (id : String)
  | delete (id : String)
  | expire
  | setLimit (limit : Int)

namespace Operation

/-- The id of the session that an operation is to make. -/
def id? : Operation → Option String
  | create id _ => some id
  | get _ | delete _ | expire | setLimit _ => none

/-- The limit that an operation sets. -/
def limit? : Operation → Option Int
  | setLimit limit => some limit
  | create _ _ | get _ | delete _ | expire => none

/-- Whether an operation counts as activity of the session of an id. -/
def touches (id : String) : Operation → Bool
  | create id' _ | get id' => id' == id
  | delete _ | expire | setLimit _ => false

end Operation

/-! ### What one operation does -/

/-- The store after an operation at a time. When a session is refused the store stays as it is. -/
def perform (s : Store) (now : Int) : Operation → Store
  | .create id format => (s.create id now format).toOption.getD s
  | .get id => (s.get id now).2
  | .delete id => (s.delete id).2
  | .expire => (s.expire now).2
  | .setLimit limit => { s with limit }

/-- The session that an operation makes at a time, if there is room for it. -/
def makes? (s : Store) (now : Int) : Operation → Option Session
  | .create id format => if s.live.length < s.limit then some (.opened id format now) else none
  | .get _ | .delete _ | .expire | .setLimit _ => none

/-- Whether an operation at a time takes a session away. -/
def takes (s : Store) (now : Int) : Operation → Session → Bool
  | .delete id, x => x.id == id
  | .expire, x => s.isExpired now x
  | .create _ _, _ | .get _, _ | .setLimit _, _ => false

section Perform

variable (s : Store) (now : Int) (op : Operation)

/-- A session is made as it is to be, or the store stays as it is. -/
theorem perform_create (id : String) (format : Format) :
    s.perform now (.create id format) =
      { s with live := s.live ++ (s.makes? now (.create id format)).toList } := by
  rw [perform, create, makes?]
  by_cases h : s.limit ≤ s.live.length
  · have hn : ¬ (s.live.length : Int) < s.limit := by omega
    simp [h, hn, Except.toOption]
  · have hl : (s.live.length : Int) < s.limit := by omega
    simp [h, hl, Except.toOption]

variable {s now} in
private theorem perform_create_of_full {id : String} {format : Format}
    (h : s.limit ≤ s.live.length) :
    s.perform now (.create id format) = s := by
  rw [perform, create_eq_error_iff.mpr ⟨h, rfl⟩]
  rfl

/-- After an operation those sessions live that it does not take, and the one that it makes. -/
theorem map_asMade_perform :
    (s.perform now op).live.map Session.asMade =
      (s.live.filter (!s.takes now op ·)).map Session.asMade ++ (s.makes? now op).toList := by
  cases op with
  | create id format =>
    rw [perform_create, makes?]
    split <;> simp [takes, Session.asMade, Session.opened]
  | get id =>
    simp only [perform, get, modify, takes, makes?, Bool.not_false, List.filter_true,
      Option.toList_none, List.append_nil, List.map_map]
    apply List.map_congr_left
    intro x _
    by_cases hid : x.id = id
    · simp [hid, Session.asMade]
    · simp [hid]
  | delete _ | expire => simp [perform, delete, expire, dismiss, takes, makes?]
  | setLimit _ => simp [perform, takes, makes?]

/-- After an operation the ids that live are those that it does not take, and the new one. -/
theorem map_id_perform :
    (s.perform now op).live.map Session.id =
      (s.live.filter (!s.takes now op ·)).map Session.id ++
        (s.makes? now op).toList.map Session.id := by
  have h := congrArg (List.map Session.id) (s.map_asMade_perform now op)
  rw [List.map_append, List.map_map, List.map_map] at h
  exact h

private theorem left_perform :
    (s.perform now op).left = s.left ++ (s.live.filter (s.takes now op)).map Session.closed := by
  cases op with
  | create id format =>
    rw [perform_create]
    simp [takes]
  | get id => simp [perform, get, modify, takes]
  | delete _ | expire => rfl
  | setLimit _ => simp [perform, takes]

/-- A session is made under the id that was given for it. -/
theorem map_id_makes? : ((s.makes? now op).toList.map Session.id).Sublist op.id?.toList := by
  cases op with
  | create id format =>
    rw [makes?]
    split <;> simp [Session.opened, Operation.id?]
  | get _ | delete _ | expire | setLimit _ => simp [makes?]

private theorem limit_perform : (s.perform now op).limit = op.limit?.getD s.limit := by
  cases op with
  | create id format => rw [perform_create]; rfl
  | get _ | delete _ | expire | setLimit _ => rfl

/-- No operation changes how long sessions may be idle. -/
theorem timeToLive_perform : (s.perform now op).timeToLive = s.timeToLive := by
  cases op with
  | create id format => rw [perform_create]
  | get _ | delete _ | expire | setLimit _ => rfl

variable {s} in
/-- Every operation keeps a store sound. -/
theorem Sound.perform (h : s.Sound) : (s.perform now op).Sound := by
  cases op with
  | create id format =>
    rw [Store.perform]
    cases hc : s.create id now format with
    | error e => exact h
    | ok s' => exact h.create hc
  | get id => exact h.modify fun x hx _ ↦ h.agreed x hx
  | delete _ | expire => exact h.dismiss _
  | setLimit _ => exact ⟨h.agreed, h.restarted⟩

end Perform

/-! ### Histories -/

/-- The store after a history of operations, each at its time. -/
def after (s : Store) (history : List (Int × Operation)) : Store :=
  history.foldl (fun s (now, op) ↦ s.perform now op) s

/-- The sessions that are made over a history, in order. -/
def made (s : Store) : List (Int × Operation) → List Session
  | [] => []
  | (now, op) :: history => (s.makes? now op).toList ++ (s.perform now op).made history

/-- The ids of the sessions that are deleted or expire over a history, in order. -/
def gone (s : Store) : List (Int × Operation) → List String
  | [] => []
  | (now, op) :: history =>
    (s.live.filter (s.takes now op)).map Session.id ++ (s.perform now op).gone history

/-- The ids that operations are given for new sessions, in order. -/
def given (history : List (Int × Operation)) : List String := history.filterMap (·.2.id?)

section Histories

variable (s : Store) (history : List (Int × Operation)) (now : Int) (op : Operation)

/-- A history in two parts is the second part after the first. -/
theorem after_append (later : List (Int × Operation)) :
    s.after (history ++ later) = (s.after history).after later := List.foldl_append

/-- A history goes on with its next operation. -/
theorem after_concat : s.after (history ++ [(now, op)]) = (s.after history).perform now op :=
  s.after_append history [(now, op)]

private theorem made_concat :
    s.made (history ++ [(now, op)]) =
      s.made history ++ ((s.after history).makes? now op).toList := by
  induction history generalizing s with
  | nil => simp [made, after]
  | cons first history ih =>
    rw [List.cons_append, made, made, ih, List.append_assoc]
    rfl

/-- The next operation takes the last sessions away. -/
theorem gone_append (later : List (Int × Operation)) :
    s.gone (history ++ later) = s.gone history ++ (s.after history).gone later := by
  induction history generalizing s with
  | nil => rfl
  | cons first history ih =>
    rw [List.cons_append, gone, gone, ih, List.append_assoc]
    rfl

/-- Sessions are made under the ids that are given. -/
theorem map_id_made_sublist : ((s.made history).map Session.id).Sublist (given history) := by
  induction history generalizing s with
  | nil => simp [made]
  | cons first history ih =>
    obtain ⟨now, op⟩ := first
    have hg : given ((now, op) :: history) = op.id?.toList ++ given history := by
      cases ho : op.id? <;> simp [given, ho]
    rw [made, List.map_append, hg]
    exact (s.map_id_makes? now op).append (ih _)

private theorem map_id_after_sublist :
    ((s.after history).live.map Session.id).Sublist
      (s.live.map Session.id ++ (s.made history).map Session.id) := by
  induction history generalizing s with
  | nil => simp [after, made]
  | cons first history ih =>
    obtain ⟨now, op⟩ := first
    apply (ih (s.perform now op)).trans
    rw [made, List.map_append, ← List.append_assoc, map_id_perform]
    exact ((List.filter_sublist.map _).append (List.Sublist.refl _)).append (List.Sublist.refl _)

/-- The ids of the sessions that have left are those that were there and those gone. -/
theorem map_id_left_after : (s.after history).left.map Session.id =
    s.left.map Session.id ++ s.gone history := by
  induction history generalizing s with
  | nil => simp [after, gone]
  | cons first history ih =>
    obtain ⟨now, op⟩ := first
    have hc : (Session.id ∘ Session.closed) = Session.id := rfl
    refine (ih (s.perform now op)).trans ?_
    rw [left_perform, gone, List.map_append, List.map_map, hc, List.append_assoc]

/-- The limit is the last that was set. -/
theorem limit_after :
    (s.after history).limit = (history.filterMap (·.2.limit?)).getLastD s.limit := by
  induction history generalizing s with
  | nil => rfl
  | cons first history ih =>
    obtain ⟨now, op⟩ := first
    refine (ih (s.perform now op)).trans ?_
    rw [limit_perform]
    cases ho : op.limit? with
    | none => simp only [List.filterMap_cons, ho, Option.getD_none]
    | some limit => simp only [List.filterMap_cons, ho, Option.getD_some, List.getLastD_cons]

/-- No history changes how long sessions may be idle. -/
theorem timeToLive_after : (s.after history).timeToLive = s.timeToLive := by
  induction history generalizing s with
  | nil => rfl
  | cons first history ih => exact (ih _).trans (s.timeToLive_perform first.1 first.2)

variable {s} in
/-- Every history keeps a store sound. -/
theorem Sound.after (h : s.Sound) : (s.after history).Sound := by
  induction history generalizing s with
  | nil => exact h
  | cons first history ih => exact ih (h.perform first.1 first.2)

end Histories

/-! ### Sessions that live -/

private theorem mem_of_mem_gone {s : Store} {history : List (Int × Operation)} {id : String}
    (h : id ∈ s.gone history) :
    id ∈ s.live.map Session.id ++ (s.made history).map Session.id := by
  induction history generalizing s with
  | nil => simp [gone] at h
  | cons first history ih =>
    obtain ⟨now, op⟩ := first
    rw [gone, List.mem_append] at h
    rw [made, List.map_append, ← List.append_assoc]
    rcases h with h | h
    · have hl : id ∈ s.live.map Session.id := (List.filter_sublist.map _).subset h
      exact List.mem_append_left _ (List.mem_append_left _ hl)
    · have hp := ih h
      rw [map_id_perform] at hp
      exact (((List.filter_sublist.map _).append (List.Sublist.refl _)).append
        (List.Sublist.refl _)).subset hp

/-- Where ids are told apart, a session is one of those that leave exactly if its id is. -/
theorem id_mem_map_filter {sessions : List Session} (h : (sessions.map Session.id).Nodup)
    {x : Session} (hx : x ∈ sessions) {leaves : Session → Bool} :
    x.id ∈ (sessions.filter leaves).map Session.id ↔ leaves x = true := by
  constructor
  · intro hid
    obtain ⟨y, hy, he⟩ := List.mem_map.mp hid
    obtain ⟨hy, hl⟩ := List.mem_filter.mp hy
    rwa [List.inj_on_of_nodup_map h hy hx he] at hl
  · intro hl
    exact List.mem_map_of_mem (List.mem_filter.mpr ⟨hx, hl⟩)

private theorem map_asMade_filter {sessions : List Session} (h : (sessions.map Session.id).Nodup)
    (leaves : Session → Bool) :
    (sessions.filter (!leaves ·)).map Session.asMade =
      (sessions.map Session.asMade).filter (·.id ∉ (sessions.filter leaves).map Session.id) := by
  rw [List.filter_map]
  apply congrArg
  apply List.filter_congr
  intro x hx
  simp only [Function.comp_apply, Session.asMade, id_mem_map_filter h hx, decide_not,
    Bool.decide_eq_true]

/-- A session that lives after an operation at a time was last active then, or it lived before and
the operation is not about it. -/
theorem of_mem_live_perform {s : Store} {now : Int} {op : Operation}
    (fresh : ∀ id ∈ op.id?, id ∉ s.live.map Session.id) {x : Session}
    (h : x ∈ (s.perform now op).live) :
    if op.touches x.id then x.updated = now else x ∈ s.live := by
  cases op with
  | create id format =>
    rw [perform_create, makes?] at h
    rcases List.mem_append.mp h with h | h
    · have hne : id ≠ x.id := fun he ↦ fresh id rfl (he ▸ List.mem_map_of_mem h)
      simpa [Operation.touches, hne] using h
    · split at h
      · obtain rfl := List.mem_singleton.mp h
        simp [Operation.touches, Session.opened]
      · simp at h
  | get id =>
    obtain ⟨y, hy, rfl⟩ := List.mem_map.mp h
    by_cases hid : y.id = id
    · simp [Operation.touches, hid]
    · have hne : id ≠ y.id := Ne.symm hid
      simpa [Operation.touches, hid, hne] using hy
  | delete _ | expire => exact (mem_live_dismiss.mp h).1
  | setLimit _ => exact h

section Course

variable {s : Store} {history : List (Int × Operation)} {now : Int} {op : Operation}

/-- The ids that a longer history is given. -/
theorem given_concat : given (history ++ [(now, op)]) = given history ++ op.id?.toList := by
  cases ho : op.id? <;> simp [given, ho]

/-- In a store that started empty only given ids live. -/
theorem map_id_live_sublist (empty : s.live = []) (history : List (Int × Operation)) :
    ((s.after history).live.map Session.id).Sublist (given history) := by
  have h := s.map_id_after_sublist history
  rw [empty] at h
  exact h.trans (s.map_id_made_sublist history)

private theorem gone_subset_given (empty : s.live = []) (history : List (Int × Operation)) :
    s.gone history ⊆ given history := by
  intro id h
  have hm := mem_of_mem_gone h
  rw [empty] at hm
  exact (s.map_id_made_sublist history).subset hm

/-- While ids are fresh, those sessions live that were made and have not gone. -/
theorem map_asMade_live (empty : s.live = []) (fresh : (given history).Nodup) :
    (s.after history).live.map Session.asMade =
      (s.made history).filter (·.id ∉ s.gone history) := by
  -- The last operation decides who lives on, so the history is taken apart from its end.
  induction history using List.reverseRecOn with
  | nil => simp [after, made, empty]
  | append_singleton history last ih =>
    obtain ⟨now, op⟩ := last
    rw [given_concat] at fresh
    have hlive := map_id_live_sublist empty history
    have hgone := gone_subset_given empty history
    have hbefore := ih fresh.of_append_left
    have htaken : (s.after history).gone [(now, op)] =
        ((s.after history).live.filter ((s.after history).takes now op)).map Session.id := by
      simp [gone]
    rw [after_concat, made_concat, gone_append, map_asMade_perform, htaken]
    generalize s.after history = s' at *
    have hsub : (s'.live.filter (s'.takes now op)).map Session.id ⊆ given history :=
      fun _ h ↦ hlive.subset ((List.filter_sublist.map _).subset h)
    generalize ht : (s'.live.filter (s'.takes now op)).map Session.id = taken at *
    have hnew : (s'.makes? now op).toList.filter (·.id ∉ s.gone history ++ taken) =
        (s'.makes? now op).toList := by
      apply List.filter_eq_self.mpr
      intro x hx
      have hid : x.id ∈ op.id?.toList := (s'.map_id_makes? now op).subset (List.mem_map_of_mem hx)
      have hx : x.id ∉ given history := fun h ↦ List.disjoint_of_nodup_append fresh h hid
      rw [decide_eq_true_eq, List.mem_append, not_or]
      exact ⟨fun h ↦ hx (hgone h), fun h ↦ hx (hsub h)⟩
    calc (s'.live.filter (!s'.takes now op ·)).map Session.asMade ++ (s'.makes? now op).toList
      _ = (s'.live.map Session.asMade).filter (·.id ∉ taken) ++ (s'.makes? now op).toList := by
        rw [map_asMade_filter (hlive.nodup fresh.of_append_left), ht]
      _ = (s.made history).filter (·.id ∉ s.gone history ++ taken) ++
            (s'.makes? now op).toList := by
        rw [hbefore, List.filter_filter]
        simp only [List.mem_append, not_or, Bool.decide_and, Bool.and_comm]
      _ = (s.made history ++ (s'.makes? now op).toList).filter
            (·.id ∉ s.gone history ++ taken) := by
        rw [List.filter_append, hnew]

private theorem find?_of_mem_gone (empty : s.live = []) {later : List (Int × Operation)}
    (fresh : (given (history ++ later)).Nodup) {id : String} (h : id ∈ s.gone history) :
    ((s.after history).after later).find? id = none := by
  have hlive := map_asMade_live empty fresh
  rw [after_append, gone_append] at hlive
  rw [find?, List.find?_eq_none]
  intro x hx he
  have hid : x.id = id := beq_iff_eq.mp he
  have hm : x.asMade ∈ ((s.after history).after later).live.map Session.asMade :=
    List.mem_map_of_mem hx
  rw [hlive] at hm
  have hn := of_decide_eq_true (List.mem_filter.mp hm).2
  exact hn (List.mem_append_left _ (hid ▸ h))

private theorem updated_of_mem_live (empty : s.live = []) (fresh : (given history).Nodup)
    {x : Session} (h : x ∈ (s.after history).live) :
    some x.updated = (history.filter (·.2.touches x.id)).getLast?.map Prod.fst := by
  induction history using List.reverseRecOn with
  | nil => simp [after, empty] at h
  | append_singleton history last ih =>
    obtain ⟨now, op⟩ := last
    rw [given_concat] at fresh
    have hnew : ∀ id ∈ op.id?, id ∉ (s.after history).live.map Session.id := by
      intro id hid hl
      have hg := (map_id_live_sublist empty history).subset hl
      exact List.disjoint_of_nodup_append fresh hg (Option.mem_toList.mpr hid)
    rw [after_concat] at h
    have hx := of_mem_live_perform hnew h
    cases ht : op.touches x.id with
    | true => simpa [ht] using hx
    | false =>
      have hx : x ∈ (s.after history).live := by simpa [ht] using hx
      simpa [ht] using ih fresh.of_append_left hx

end Course

/-! ### Sessions in order -/

section Listed

variable (s : Store)

private theorem le_trans_created (x y z : Session) :
    decide (x.created ≤ y.created) → decide (y.created ≤ z.created) →
      decide (x.created ≤ z.created) := by
  simp only [decide_eq_true_eq]
  omega

private theorem le_total_created (x y : Session) :
    decide (x.created ≤ y.created) || decide (y.created ≤ x.created) := by
  simp only [Bool.or_eq_true, decide_eq_true_eq]
  omega

private theorem pairwise_list : s.list.Pairwise (·.created ≤ ·.created) := by
  have h := List.pairwise_mergeSort le_trans_created le_total_created s.live
  exact h.imp fun h ↦ of_decide_eq_true h

private theorem filter_list (time : Int) :
    s.list.filter (·.created == time) = s.live.filter (·.created == time) := by
  have hp : s.list.Perm s.live := List.mergeSort_perm _ _
  have hle : (s.live.filter (·.created == time)).Pairwise
      fun x y ↦ decide (x.created ≤ y.created) := by
    apply List.pairwise_of_forall_mem_list
    intro x hx y hy
    simp only [List.mem_filter, beq_iff_eq] at hx hy
    simp [hx.2, hy.2]
  have hs : (s.live.filter (·.created == time)).Sublist s.list :=
    List.sublist_mergeSort le_trans_created le_total_created hle List.filter_sublist
  have hf := hs.filter (·.created == time)
  rw [List.filter_filter] at hf
  simp only [Bool.and_self] at hf
  exact (hf.eq_of_length (hp.filter _).length_eq.symm).symm

end Listed

/-! ### The store over a history -/

/-- A store starts empty, and ids are fresh whatever is done to it. A session is made exactly when
fewer live than the limit set last, and else nothing changes. Those sessions live that were made
and have not been deleted or expired since, and no id comes back that has gone. The sessions that
live have agreed on their formats, the streams of those that have left are fresh. The list of
sessions holds each once, by age and then in the order in which they were made. -/
theorem live_are_made_and_not_gone (timeToLive limit : Int) {history : List (Int × Operation)}
    (fresh : (given history).Nodup) :
    let start : Store := { timeToLive, limit }
    let s := start.after history
    (s.limit = (history.filterMap (·.2.limit?)).getLastD limit ∧
        ∀ id now format,
          ((∃ s', s.create id now format = .ok s') ↔ s.live.length < s.limit) ∧
            (s.limit ≤ s.live.length → s.perform now (.create id format) = s)) ∧
      (s.live.map Session.asMade = (start.made history).filter (·.id ∉ start.gone history) ∧
        s.left.map Session.id = start.gone history ∧ s.timeToLive = timeToLive ∧
        ∀ x ∈ s.live,
          some x.updated = (history.filter (·.2.touches x.id)).getLast?.map Prod.fst) ∧
      (∀ later, (given (history ++ later)).Nodup → ∀ id ∈ start.gone history, ∀ now,
        ((s.after later).get id now).1 = none ∧ ((s.after later).delete id).1 = false) ∧
      ((∀ x ∈ s.live, x.link.stream.format = some x.format) ∧
        ∀ x ∈ s.left, x.link.stream = .fresh) ∧
      (s.list.Perm s.live ∧ (s.list.map Session.id).Nodup ∧
        s.list.Pairwise (·.created ≤ ·.created) ∧
        ∀ time, s.list.filter (·.created == time) = s.live.filter (·.created == time)) := by
  intro start s
  have empty : start.live = [] := rfl
  have sound : s.Sound := (sound_empty timeToLive limit).after history
  have listed : s.list.Perm s.live := List.mergeSort_perm _ _
  refine ⟨⟨start.limit_after history, ?_⟩, ⟨map_asMade_live empty fresh, ?_,
    start.timeToLive_after history, fun x hx ↦ updated_of_mem_live empty fresh hx⟩, ?_,
    ⟨sound.agreed, sound.restarted⟩, listed, ?_, s.pairwise_list, s.filter_list⟩
  · intro id now format
    constructor
    · constructor
      · rintro ⟨s', hs⟩
        exact (create_eq_ok_iff.mp hs).1
      · intro h
        exact ⟨_, create_eq_ok_iff.mpr ⟨h, rfl⟩⟩
    · exact perform_create_of_full
  · exact start.map_id_left_after history
  · intro later fresh' id hid now
    have hfind := find?_of_mem_gone empty fresh' hid
    constructor
    · exact (find?_get (s.after later) id now).trans (by rw [hfind]; rfl)
    · exact congrArg Option.isSome hfind
  · exact (listed.map _).nodup_iff.mpr ((map_id_live_sublist empty history).nodup fresh)

/-- The clock goes back, and one session is refused because the limit has dropped. One expires
that was not asked for, and another is deleted. -/
theorem live_are_made_and_not_gone_while_limit_drops :
    let history : List (Int × Operation) :=
      [(5, .create "a" .plain), (3, .create "b" .subRip), (6, .setLimit 1),
        (6, .create "c" .webVtt), (4, .get "a"), (3604, .expire), (3604, .setLimit 3),
        (2, .create "d" .webVtt), (7, .create "e" .subRip), (8, .delete "e")]
    let s := ({ timeToLive := 3600, limit := 2 } : Store).after history
    (given history).Nodup ∧ s.limit = 3 ∧ (∃ s', s.create "f" 9 .plain = .ok s') ∧
      s.live.map Session.id = ["a", "d"] ∧ s.left.map Session.id = ["b", "e"] ∧
      (∀ now, (s.get "b" now).1 = none ∧ (s.delete "b").1 = false) ∧
      (∀ x ∈ s.left, x.link.stream = .fresh) ∧ s.list.Pairwise (·.created ≤ ·.created) := by
  intro history s
  have fresh : (given history).Nodup := by decide
  obtain ⟨⟨hlimit, hcreate⟩, ⟨hlive, hleft, -, -⟩, hgone, ⟨-, hstreams⟩, -, -, hlist, -⟩ :=
    live_are_made_and_not_gone 3600 2 fresh
  have hb : "b" ∈ ({ timeToLive := 3600, limit := 2 } : Store).gone history := by decide
  refine ⟨fresh, hlimit, (hcreate "f" 9 .plain).1.mpr (by decide), ?_, hleft,
    hgone [] (by simpa using fresh) "b" hb, hstreams, hlist⟩
  · have hids := congrArg (List.map Session.id) hlive
    rw [List.map_map] at hids
    exact hids.trans (by decide)

end Store

end Line21
