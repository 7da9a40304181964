import Line21.Receiver

/-!
# The gates before a receiver

A pair reaches a receiver only if it is neither padding nor part of a packet, and it is acted
upon only if it does not repeat a doubled code. What a code does depends neither on the last
pair nor on packets, and changes neither. A run hears pairs one after the other and tells the
moment of each.
-/

namespace Line21

namespace Code

/-- Codes that are more than padding or part of a packet. -/
def isHeard : Code → Bool
  | .padding | .packet _ => false
  | _ => true

private theorem isHeard_of_interrupts {c : Code} (h : c.interrupts = true) : c.isHeard = true := by
  cases c with
  | padding | packet _ => cases h
  | _ => rfl

end Code

namespace Receiver

/-- A pair gets past padding and packets. -/
def Admits (r : Receiver) (p : BytePair) : Prop :=
  p.code.isHeard = true ∧ (r.inPacket = true → p.code.interrupts = true)

/-- A pair repeats a doubled code and is dropped for it. -/
def Drops (r : Receiver) (p : BytePair) : Prop :=
  r.Admits p ∧ p.code.isDoubled = true ∧ p = r.last

instance (r : Receiver) (p : BytePair) : Decidable (r.Admits p) :=
  inferInstanceAs (Decidable (_ ∧ _))

instance (r : Receiver) (p : BytePair) : Decidable (r.Drops p) :=
  inferInstanceAs (Decidable (_ ∧ _ ∧ _))

/-- A code that interrupts packets gets past them. -/
theorem admits_of_interrupts {r : Receiver} {p : BytePair} (h : p.code.interrupts = true) :
    r.Admits p :=
  ⟨Code.isHeard_of_interrupts h, fun _ ↦ h⟩

/-- A code that is not admitted only starts or ends a packet. -/
def pass (r : Receiver) : Code → Receiver
  | .packet ends => { r with inPacket := !ends }
  | _ => r

/-- What is not admitted touches nothing but the place inside or outside of a packet. -/
theorem exists_pass (r : Receiver) (c : Code) : ∃ inPacket, r.pass c = { r with inPacket } := by
  cases c with
  | packet ends => exact ⟨!ends, rfl⟩
  | _ => exact ⟨r.inPacket, rfl⟩

/-- A heard code that is not admitted does nothing. -/
theorem pass_of_isHeard (r : Receiver) {c : Code} (h : c.isHeard = true) : r.pass c = r := by
  cases c with
  | packet ends => cases h
  | _ => rfl

/-! ### What a code leaves alone -/

section Frame

variable (r : Receiver) (last : BytePair) (inPacket : Bool)

private theorem edit_frame (f : Memory → Memory) :
    ({ r with last, inPacket } : Receiver).edit f = { r.edit f with last, inPacket } := by
  rcases r with ⟨_, _, _, _, target, _⟩
  cases target with
  | none => rfl
  | some plane => cases plane <;> rfl

private theorem type_frame (x : Char) :
    ({ r with last, inPacket } : Receiver).type x = { r.type x with last, inPacket } := by
  unfold type
  rw [edit_frame]

private theorem foldl_type_frame (chars : List Char) :
    chars.foldl type ({ r with last, inPacket } : Receiver) =
      { chars.foldl type r with last, inPacket } := by
  induction chars generalizing r with
  | nil => rfl
  | cons x chars ih => rw [List.foldl_cons, List.foldl_cons, type_frame, ih]

private theorem write_frame (chars : List Char) :
    ({ r with last, inPacket } : Receiver).write chars =
      ({ (r.write chars).1 with last, inPacket }, (r.write chars).2) := by
  have hf := r.foldl_type_frame last inPacket chars
  unfold write
  rcases r with ⟨_, _, _, _, target, _⟩
  cases target with
  | none => rfl
  | some plane =>
    cases plane with
    | hidden => exact congrArg (·, Moment.quiet) hf
    | shown => exact congrArg (fun r : Receiver ↦ ({ r with displayed := true }, Moment.shown)) hf

private theorem backspace_frame :
    ({ r with last, inPacket } : Receiver).backspace = { r.backspace with last, inPacket } := by
  unfold backspace
  dsimp only
  split
  · rw [edit_frame]
  · rfl

private theorem obey_frame (command : Command) :
    ({ r with last, inPacket } : Receiver).obey command =
      ({ (r.obey command).1 with last, inPacket }, (r.obey command).2) := by
  cases command with
  | backspace => exact congrArg (·, Moment.quiet) (r.backspace_frame last inPacket)
  | eraseToEnd => exact congrArg (·, Moment.quiet) (r.edit_frame last inPacket _)
  | carriageReturn =>
    rcases r with ⟨_, _, _, _, _, window, _⟩
    cases window <;> rfl
  | _ => rfl

/-- What a code does depends neither on the last pair nor on packets, and changes neither. -/
theorem act_frame (c : Code) :
    ({ r with last, inPacket } : Receiver).act c =
      ({ (r.act c).1 with last, inPacket }, (r.act c).2) := by
  cases c with
  | control channel command =>
    cases channel with
    | one => exact ({ r with channel := .one } : Receiver).obey_frame last inPacket command
    | two => rfl
  | tab channel columns =>
    unfold act
    dsimp only
    split <;> rfl
  | preamble channel row column =>
    cases channel with
    | one => cases row <;> rfl
    | two => rfl
  | midRow channel =>
    cases channel with
    | one => exact ({ r with channel := .one } : Receiver).write_frame last inPacket [' ']
    | two => rfl
  | special x =>
    unfold act
    dsimp only
    split
    · exact r.write_frame last inPacket [x]
    · rfl
  | extended x =>
    unfold act
    dsimp only
    split
    · rw [backspace_frame, write_frame]
    · rfl
  | basic chars =>
    unfold act
    dsimp only
    split
    · exact r.write_frame last inPacket chars
    · rfl
  | padding | packet _ | unknown => rfl

end Frame

/-- A code leaves the last pair as it is. -/
theorem last_act (r : Receiver) (c : Code) : (r.act c).1.last = r.last := by
  have h := r.act_frame r.last r.inPacket c
  exact congrArg (fun x ↦ x.1.last) h

/-- A code neither starts nor ends a packet by what it does. -/
theorem inPacket_act (r : Receiver) (c : Code) : (r.act c).1.inPacket = r.inPacket := by
  have h := r.act_frame r.last r.inPacket c
  exact congrArg (fun x ↦ x.1.inPacket) h

/-! ### What writing leaves alone -/

/-- Changing a memory keeps the channel. -/
theorem channel_edit (r : Receiver) (f : Memory → Memory) : (r.edit f).channel = r.channel := by
  unfold edit
  split <;> rfl

/-- Writing keeps the channel. -/
theorem channel_write (r : Receiver) (chars : List Char) :
    (r.write chars).1.channel = r.channel := by
  have ht : (chars.foldl type r).channel = r.channel := by
    induction chars generalizing r with
    | nil => rfl
    | cons x chars ih =>
      rw [List.foldl_cons, ih]
      exact r.channel_edit _
  unfold write
  split
  · rfl
  · exact ht
  · exact ht

/-- Taking back a character keeps the channel. -/
theorem channel_backspace (r : Receiver) : r.backspace.channel = r.channel := by
  unfold backspace
  split
  · exact r.channel_edit _
  · rfl

/-! ### The three ways of a pair -/

/-- A pair that is not admitted passes by. -/
theorem step_of_not_admits {r : Receiver} {p : BytePair} (h : ¬ r.Admits p) :
    r.step p = (r.pass p.code, .quiet) := by
  unfold step
  split
  · next hc => rw [hc]; rfl
  · next ends hc => rw [hc]; rfl
  · next code hpad hpack =>
    have hh : p.code.isHeard = true := by
      unfold Code.isHeard
      split
      · next hc => exact absurd hc hpad
      · next ends hc => exact absurd hc (hpack ends)
      · rfl
    have hi : r.inPacket = true ∧ ¬ p.code.interrupts = true :=
      Classical.not_imp.mp fun hc ↦ h ⟨hh, hc⟩
    rw [if_pos hi.1, if_neg hi.2, pass_of_isHeard r hh]

/-- A pair that is admitted is heard outside of packets. -/
theorem step_eq_hear {r : Receiver} {p : BytePair} (h : r.Admits p) :
    r.step p = ({ r with inPacket := false } : Receiver).hear p := by
  unfold step
  split
  · next hc =>
    have hh := h.1
    rw [hc] at hh
    cases hh
  · next ends hc =>
    have hh := h.1
    rw [hc] at hh
    cases hh
  · split
    · next hi => rw [if_pos (h.2 hi)]
    · next hi =>
      have he : r = { r with inPacket := false } := by
        rw [← Bool.eq_false_iff.mpr hi]
      rw [← he]

/-- A pair that repeats a doubled code is dropped and forgotten. -/
theorem step_of_drops {r : Receiver} {p : BytePair} (h : r.Drops p) :
    r.step p = ({ r with inPacket := false, last := .zero }, .quiet) := by
  rw [step_eq_hear h.1, hear, if_pos h.2]

/-- Any other pair that is admitted is remembered and acted upon. -/
theorem step_of_admits {r : Receiver} {p : BytePair} (h : r.Admits p) (hd : ¬ r.Drops p) :
    r.step p = ({ r with inPacket := false, last := p } : Receiver).act p.code := by
  rw [step_eq_hear h, hear, if_neg fun he ↦ hd ⟨h, he⟩]

/-- A pair is either passed by, which concerns the gates alone, or let through and acted upon. -/
theorem step_cases (r : Receiver) (p : BytePair) :
    (¬ (r.Admits p ∧ ¬ r.Drops p) ∧
        ∃ last inPacket, r.step p = ({ r with last, inPacket }, .quiet)) ∨
      ((r.Admits p ∧ ¬ r.Drops p) ∧
        r.step p = ({ r with inPacket := false, last := p } : Receiver).act p.code) := by
  by_cases ha : r.Admits p
  · by_cases hd : r.Drops p
    · exact .inl ⟨fun h ↦ h.2 hd, _, _, step_of_drops hd⟩
    · exact .inr ⟨⟨ha, hd⟩, step_of_admits ha hd⟩
  · obtain ⟨inPacket, hp⟩ := r.exists_pass p.code
    rw [step_of_not_admits ha, hp]
    exact .inl ⟨fun h ↦ ha h.1, r.last, inPacket, rfl⟩

/-! ### Runs -/

/-- Hear pairs without parity bits one after the other. -/
def stepAll (r : Receiver) : List BytePair → Receiver × List Moment
  | [] => (r, [])
  | p :: ps =>
    let rest := (r.step p).1.stepAll ps
    (rest.1, (r.step p).2 :: rest.2)

/-- A run in two parts is the second part after the first. -/
theorem stepAll_append (r : Receiver) (ps qs : List BytePair) :
    r.stepAll (ps ++ qs) =
      (((r.stepAll ps).1.stepAll qs).1, (r.stepAll ps).2 ++ ((r.stepAll ps).1.stepAll qs).2) := by
  induction ps generalizing r with
  | nil => rfl
  | cons p ps ih =>
    rw [List.cons_append, stepAll, ih]
    rfl

/-- A receiver hears pairs quietly and ends in a state. -/
def Absorbs (r : Receiver) (ps : List BytePair) (r' : Receiver) : Prop :=
  r.stepAll ps = (r', List.replicate ps.length .quiet)

/-- Nothing is heard quietly. -/
theorem Absorbs.nil (r : Receiver) : r.Absorbs [] r := rfl

/-- Pairs are heard quietly when the first is quiet and the others are heard so after it. -/
theorem absorbs_cons {r r' : Receiver} {p : BytePair} {ps : List BytePair} :
    r.Absorbs (p :: ps) r' ↔ (r.step p).2 = .quiet ∧ (r.step p).1.Absorbs ps r' := by
  rw [Absorbs, Absorbs, stepAll, List.length_cons, List.replicate_succ, Prod.ext_iff, Prod.ext_iff,
    List.cons.injEq, and_left_comm]

/-- A pair that is quiet goes before pairs that are heard quietly. -/
theorem Absorbs.cons {r r' r'' : Receiver} {p : BytePair} {ps : List BytePair}
    (hp : r.step p = (r', .quiet)) (h : r'.Absorbs ps r'') : r.Absorbs (p :: ps) r'' := by
  rw [absorbs_cons, hp]
  exact ⟨rfl, h⟩

/-- Pairs that are heard quietly follow each other. -/
theorem Absorbs.append {r r' r'' : Receiver} {ps qs : List BytePair} (hp : r.Absorbs ps r')
    (hq : r'.Absorbs qs r'') : r.Absorbs (ps ++ qs) r'' := by
  rw [Absorbs, stepAll_append, hp, hq, List.length_append, ← List.replicate_append_replicate]

/-- Receive pairs one after the other, as they were sent. -/
def receiveAll (r : Receiver) : List BytePair → Except ParityError (Receiver × List Moment)
  | [] => .ok (r, [])
  | p :: ps =>
    match r.receive p with
    | .error e => .error e
    | .ok (r, moment) => (r.receiveAll ps).map fun (r, moments) ↦ (r, moment :: moments)

/-- A pair that has its parity is heard. -/
theorem receive_of_parityHolds {p : BytePair} (h : p.parityHolds = true) (r : Receiver) :
    r.receive p = .ok (r.step p.stripped) := if_pos h

/-- A pair that is received is heard. -/
theorem step_of_receive {r r' : Receiver} {p : BytePair} {moment : Moment}
    (h : r.receive p = .ok (r', moment)) : r.step p.stripped = (r', moment) := by
  unfold receive at h
  split at h
  · exact Except.ok.inj h
  · cases h

/-- Pairs that have their parity are all heard. -/
theorem receiveAll_of_parityHolds {ps : List BytePair} (h : ∀ p ∈ ps, p.parityHolds = true)
    (r : Receiver) : r.receiveAll ps = .ok (r.stepAll (ps.map BytePair.stripped)) := by
  induction ps generalizing r with
  | nil => rfl
  | cons p ps ih =>
    rw [receiveAll, receive_of_parityHolds (h p List.mem_cons_self)]
    dsimp only
    rw [ih fun q hq ↦ h q (List.mem_cons_of_mem p hq)]
    rfl

end Receiver

end Line21
