import Line21.Proofs.Receiver.Gates

/-!
# Codes that are sent twice

Senders repeat codes for safety. A copy that follows at once does no harm: a doubled code is
dropped, and an extended character takes back what its first copy wrote and writes the same
again. The two runs, with copies and without, differ in the last pair alone, which a dropped
copy makes the receiver forget.
-/

namespace Line21

namespace Code

/-- Codes that a sender may repeat at once: doubled codes and extended characters. -/
def isRepeatable : Code → Bool
  | .extended _ => true
  | c => c.isDoubled

private theorem exists_extended {c : Code} (h : c.isRepeatable = true) (hd : ¬ c.isDoubled = true) :
    ∃ x, c = .extended x := by
  cases c with
  | extended x => exact ⟨x, rfl⟩
  | _ => exact absurd h hd

private theorem isHeard_of_isRepeatable {c : Code} (h : c.isRepeatable = true) :
    c.isHeard = true := by
  cases c <;> first | rfl | cases h

end Code

namespace Receiver

/-! ### Extended characters -/

private theorem write_backspace_write {r : Receiver} (h : r.target = none ∨ r.column.val < 31)
    (x : Char) :
    (r.write [x]).1.backspace.write [x] = r.write [x] := by
  rcases r with ⟨shown, hidden, row, column, target, _⟩
  cases target with
  | none => rfl
  | some plane =>
    have hb : (column.advance 1).back? = some column :=
      Column.back?_advance_one (h.resolve_left nofun)
    cases plane with
    | shown =>
      simp only [write, List.foldl_cons, List.foldl_nil, type, edit, backspace, hb,
        Memory.put_put]
    | hidden =>
      simp only [write, List.foldl_cons, List.foldl_nil, type, edit, backspace, hb,
        Memory.put_put]

private theorem backspace_column (r : Receiver) :
    r.backspace.target = none ∨ r.backspace.column.val < 31 := by
  rcases r with ⟨_, _, _, column, target, _⟩
  cases target with
  | none => exact .inl rfl
  | some plane =>
    right
    unfold backspace
    cases hb : column.back? with
    | none =>
      have hz := Column.back?_eq_none_iff.mp hb
      dsimp only
      omega
    | some c =>
      dsimp only
      exact Column.val_lt_of_back? hb

private theorem act_twice {c : Code} (h : c.isRepeatable = true) (hd : ¬ c.isDoubled = true)
    (r : Receiver) : (r.act c).1.act c = r.act c := by
  obtain ⟨x, rfl⟩ := Code.exists_extended h hd
  unfold act
  by_cases hc : r.channel = .one
  · have hc' : (r.backspace.write [x]).1.channel = .one := by
      rw [channel_write, channel_backspace, hc]
    simp only [if_pos hc, if_pos hc', write_backspace_write r.backspace_column]
  · simp only [if_neg hc]

/-! ### Runs with copies -/

/-- Whether a receiver drops none of the pairs of a run. -/
def NeverDrops (r : Receiver) : List BytePair → Prop
  | [] => True
  | p :: ps => ¬ r.Drops p.stripped ∧ (r.step p.stripped).1.NeverDrops ps

instance decidableNeverDrops : (r : Receiver) → (ps : List BytePair) → Decidable (r.NeverDrops ps)
  | _, [] => inferInstanceAs (Decidable True)
  | r, p :: ps =>
    have := decidableNeverDrops (r.step p.stripped).1 ps
    inferInstanceAs (Decidable (_ ∧ _))

/-- The last pair of a receiver that may have forgotten it. -/
def MayForget (r : Receiver) (last : BytePair) : Prop := last = r.last ∨ last = .zero

private theorem MayForget.trans {r : Receiver} {last last' : BytePair} (h : r.MayForget last)
    (h' : ({ r with last } : Receiver).MayForget last') : r.MayForget last' := by
  rcases h' with rfl | rfl
  · exact h
  · exact .inr rfl

/-- A receiver that forgot the last pair drops no more than it did. -/
theorem not_drops_of_mayForget {r : Receiver} {p last : BytePair} (hl : r.MayForget last)
    (hd : ¬ r.Drops p) : ¬ ({ r with last } : Receiver).Drops p := by
  rintro ⟨ha, hc, hp⟩
  rcases hl with rfl | rfl
  · exact hd ⟨ha, hc, hp⟩
  · have hz : p.code = .padding := by rw [hp]; rfl
    rw [hz] at hc
    cases hc

/-- A pair that is not dropped does the same to a receiver that forgot the last pair. -/
theorem step_of_mayForget {r : Receiver} {p last : BytePair} (hl : r.MayForget last)
    (hd : ¬ r.Drops p) :
    ∃ last', (r.step p).1.MayForget last' ∧
      ({ r with last } : Receiver).step p = ({ (r.step p).1 with last := last' }, (r.step p).2) := by
  have hd' := not_drops_of_mayForget hl hd
  by_cases ha : r.Admits p
  · have ha' : ({ r with last } : Receiver).Admits p := ha
    rw [step_of_admits ha hd, step_of_admits ha' hd']
    exact ⟨_, .inl rfl, rfl⟩
  · have ha' : ¬ ({ r with last } : Receiver).Admits p := ha
    rw [step_of_not_admits ha, step_of_not_admits ha']
    refine ⟨last, ?_, ?_⟩
    · cases p.code <;> exact hl
    · cases p.code <;> rfl

/-- The moment of a copy that follows at once. -/
def copyMoment (c : Code) (m : Moment) : Moment := if c.isDoubled then .quiet else m

private theorem step_copy {r : Receiver} {p : BytePair} (hd : ¬ r.Drops p)
    (hr : p.code.isRepeatable = true) :
    ∃ last, (r.step p).1.MayForget last ∧
      (r.step p).1.step p = ({ (r.step p).1 with last }, copyMoment p.code (r.step p).2) := by
  by_cases ha : r.Admits p
  · rw [step_of_admits ha hd]
    let r' := (({ r with inPacket := false, last := p } : Receiver).act p.code).1
    have hl : r'.last = p := last_act _ _
    have hi : r'.inPacket = false := inPacket_act _ _
    have ha' : r'.Admits p := ⟨ha.1, fun h ↦ absurd (hi.symm.trans h) nofun⟩
    have he : { r' with inPacket := false, last := p } = r' := by rw [← hi, ← hl]
    by_cases hc : p.code.isDoubled = true
    · refine ⟨.zero, .inr rfl, ?_⟩
      change r'.step p = _
      rw [step_of_drops ⟨ha', hc, hl.symm⟩, copyMoment, if_pos hc]
      exact congrArg (fun r : Receiver ↦ ({ r with last := .zero }, Moment.quiet)) he
    · have ht : r'.act p.code = ({ r with inPacket := false, last := p } : Receiver).act p.code :=
        act_twice hr hc _
      refine ⟨r'.last, .inl rfl, ?_⟩
      change r'.step p = _
      rw [step_of_admits ha' fun h ↦ hc h.2.1, he, ht, copyMoment, if_neg hc]
  · have hp : r.pass p.code = r := r.pass_of_isHeard (Code.isHeard_of_isRepeatable hr)
    have hq : copyMoment p.code .quiet = .quiet := ite_self _
    rw [step_of_not_admits ha, hp]
    exact ⟨r.last, .inl rfl, by rw [step_of_not_admits ha, hp, hq]⟩

private theorem step_twice_of_mayForget {r : Receiver} {p last : BytePair} (hl : r.MayForget last)
    (hd : ¬ r.Drops p) (hr : p.code.isRepeatable = true) :
    ∃ last', (r.step p).1.MayForget last' ∧
      ({ r with last } : Receiver).stepAll [p, p] =
        ({ (r.step p).1 with last := last' }, [(r.step p).2, copyMoment p.code (r.step p).2]) := by
  obtain ⟨first, hf, hs⟩ := step_of_mayForget hl hd
  obtain ⟨second, hf', hc⟩ := step_copy (not_drops_of_mayForget hl hd) hr
  rw [hs] at hf' hc
  refine ⟨second, hf.trans hf', ?_⟩
  simp only [stepAll, hs, hc]

/-- The pairs of a run in which those that are marked are sent twice in a row. -/
def withCopies (w : List (BytePair × Bool)) : List BytePair :=
  w.flatMap fun (p, twice) ↦ if twice then [p, p] else [p]

/-- The moments of a run with copies, when those of the run without them are known: a pair has
the moment that it had, and so has the copy of an extended character; all other copies are
quiet. -/
def momentsWithCopies (w : List (BytePair × Bool)) (ms : List Moment) : List Moment :=
  (w.zip ms).flatMap fun ((p, twice), m) ↦
    if twice then [m, copyMoment p.stripped.code m] else [m]

/-- Copies change nothing in a run but the last pair, from a receiver on that may have forgotten
its last pair already. -/
theorem stepAll_withCopies {w : List (BytePair × Bool)} {r : Receiver} {last : BytePair}
    (hl : r.MayForget last) (hn : r.NeverDrops (w.map Prod.fst))
    (hr : ∀ x ∈ w, x.2 = true → x.1.stripped.code.isRepeatable = true) :
    ∃ last', ({ r with last } : Receiver).stepAll ((withCopies w).map BytePair.stripped) =
      ({ (r.stepAll (w.map (·.1.stripped))).1 with last := last' },
        momentsWithCopies w (r.stepAll (w.map (·.1.stripped))).2) := by
  induction w generalizing r last with
  | nil => exact ⟨last, rfl⟩
  | cons x w ih =>
    obtain ⟨p, twice⟩ := x
    obtain ⟨hd, hn⟩ := hn
    have hw : ∀ x ∈ w, x.2 = true → x.1.stripped.code.isRepeatable = true :=
      fun x hx ↦ hr x (List.mem_cons_of_mem _ hx)
    cases twice with
    | false =>
      obtain ⟨first, hf, hs⟩ := step_of_mayForget hl hd
      obtain ⟨last', ht⟩ := ih hf hn hw
      have hc : (withCopies ((p, false) :: w)).map BytePair.stripped =
          p.stripped :: (withCopies w).map BytePair.stripped := rfl
      refine ⟨last', ?_⟩
      rw [hc, stepAll, hs, ht]
      rfl
    | true =>
      obtain ⟨second, hf, hs⟩ := step_twice_of_mayForget hl hd (hr _ List.mem_cons_self rfl)
      obtain ⟨last', ht⟩ := ih hf hn hw
      have hc : (withCopies ((p, true) :: w)).map BytePair.stripped =
          [p.stripped, p.stripped] ++ (withCopies w).map BytePair.stripped := rfl
      refine ⟨last', ?_⟩
      rw [hc, stepAll_append, hs, ht]
      rfl

/-- Sending codes twice in a row is harmless. A run that repeats some of the codes of another
one, in which no pair is dropped, leads to the same receiver, the last pair apart. Each pair
has the moment that it had, and every copy of a doubled code is quiet. -/
theorem receiveAll_withCopies (r : Receiver) {w : List (BytePair × Bool)}
    (hp : ∀ x ∈ w, x.1.parityHolds = true) (hn : r.NeverDrops (w.map Prod.fst))
    (hr : ∀ x ∈ w, x.2 = true → x.1.stripped.code.isRepeatable = true) :
    ∃ r' moments last, r.receiveAll (w.map Prod.fst) = .ok (r', moments) ∧
      r.receiveAll (withCopies w) = .ok ({ r' with last }, momentsWithCopies w moments) := by
  have hw : ∀ p ∈ w.map Prod.fst, p.parityHolds = true := by
    intro p hm
    obtain ⟨x, hx, rfl⟩ := List.mem_map.mp hm
    exact hp x hx
  have hc : ∀ p ∈ withCopies w, p.parityHolds = true := by
    intro p hm
    obtain ⟨⟨q, twice⟩, hx, hq⟩ := List.mem_flatMap.mp hm
    obtain rfl : p = q := by cases twice <;> simpa using hq
    exact hp (p, twice) hx
  have hl : r.MayForget r.last := .inl rfl
  have he : ({ r with last := r.last } : Receiver) = r := rfl
  obtain ⟨last, hs⟩ := stepAll_withCopies hl hn hr
  rw [he] at hs
  refine ⟨_, _, last, receiveAll_of_parityHolds hw r, ?_⟩
  rw [receiveAll_of_parityHolds hc, hs, List.map_map]
  rfl

/-- A caption all of whose codes are sent twice, an extended character among them. -/
theorem receiveAll_withCopies_popOn :
    let w : List (BytePair × Bool) :=
      [(⟨0x94, 0x20⟩, true), (⟨0x94, 0x70⟩, true), (⟨0x97, 0xa1⟩, true), (⟨0xc1, 0x80⟩, false),
        (⟨0x92, 0x20⟩, true), (⟨0x91, 0xae⟩, true), (⟨0x94, 0x2f⟩, true)]
    (∀ x ∈ w, x.1.parityHolds = true) ∧ fresh.NeverDrops (w.map Prod.fst) ∧
      (∀ x ∈ w, x.2 = true → x.1.stripped.code.isRepeatable = true) ∧
      ∃ r moments last, fresh.receiveAll (w.map Prod.fst) = .ok (r, moments) ∧
        fresh.receiveAll (withCopies w) = .ok ({ r with last }, momentsWithCopies w moments) := by
  intro w
  have hp : ∀ x ∈ w, x.1.parityHolds = true := by decide +kernel
  have hn : fresh.NeverDrops (w.map Prod.fst) := by decide +kernel
  have hr : ∀ x ∈ w, x.2 = true → x.1.stripped.code.isRepeatable = true := by decide +kernel
  exact ⟨hp, hn, hr, receiveAll_withCopies fresh hp hn hr⟩

end Receiver

end Line21
