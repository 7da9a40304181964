import Line21.Proofs.Receiver.Quiet

/-!
# Receivers that can come about

A receiver drops a doubled code that repeats its last pair. That is no loss as long as the code
asks for nothing that has changed since. Main statement: in every receiver that can come about,
the channel that the last pair selected is still selected, and what its command set is still set.
-/

namespace Line21

/-- The channel that a code selects. -/
def Code.selects? : Code → Option Channel
  | .control channel _ | .preamble channel _ _ | .midRow channel => some channel
  | _ => none

namespace Receiver

variable {r : Receiver}

/-- What a command sets for the pairs that follow is set. -/
def Obeys (r : Receiver) : Command → Prop
  | .resumeLoading => r.target = some .hidden ∧ r.window = none
  | .resumeDirect => r.target = some .shown ∧ r.window = none
  | .rollUp depth => r.target = some .shown ∧ r.window = some depth
  | .resumeText => r.target = none
  | _ => True

/-- What a code sets for the pairs that follow is set: the channel that it selects, and what its
command sets. -/
structure Heeds (r : Receiver) (c : Code) : Prop where
  channel : ∀ channel, c.selects? = some channel → r.channel = channel
  command : ∀ command, c.command? = some command → r.Obeys command

/-- A receiver that can come about: it is fresh, after its making or a reset, or has received a
pair. A pair that is refused leaves the receiver that there was. -/
inductive Reachable : Receiver → Prop
  | fresh : Reachable fresh
  | receive {r r' : Receiver} {p : BytePair} {moment : Moment} (h : Reachable r)
    (hr : r.receive p = .ok (r', moment)) : Reachable r'

/-- Receivers that pairs are received by can come about. -/
theorem Reachable.receiveAll {r' : Receiver} {ps : List BytePair} {moments : List Moment}
    (h : r.Reachable) (hr : r.receiveAll ps = .ok (r', moments)) : r'.Reachable := by
  induction ps generalizing r moments with
  | nil =>
    obtain ⟨rfl, -⟩ := Prod.mk.inj (Except.ok.inj hr)
    exact h
  | cons p ps ih =>
    rw [Receiver.receiveAll] at hr
    split at hr
    · cases hr
    · next r₁ moment hp =>
      cases hrest : r₁.receiveAll ps with
      | error e =>
        rw [hrest] at hr
        cases hr
      | ok rest =>
        rw [hrest] at hr
        obtain ⟨rfl, -⟩ := Prod.mk.inj (Except.ok.inj hr)
        exact ih (h.receive hp) hrest

/-! ### What a code leaves set -/

private theorem channel_obey (r : Receiver) (command : Command) :
    (r.obey command).1.channel = r.channel := by
  cases command with
  | carriageReturn =>
    rw [obey]
    split <;> rfl
  | backspace => exact r.channel_backspace
  | eraseToEnd => exact r.channel_edit _
  | _ => rfl

/-- A command leaves set what it sets. -/
theorem obeys_obey (r : Receiver) (command : Command) : (r.obey command).1.Obeys command := by
  cases command with
  | resumeLoading | resumeDirect | rollUp _ => exact ⟨rfl, rfl⟩
  | resumeText => rfl
  | _ => trivial

private theorem heeds_act (r : Receiver) (c : Code) : (r.act c).1.Heeds c := by
  cases c with
  | control channel command =>
    cases channel with
    | one =>
      refine ⟨fun _ hc ↦ ?_, fun _ hc ↦ ?_⟩
      · rw [← Option.some.inj hc]
        exact channel_obey { r with channel := .one } command
      · rw [← Option.some.inj hc]
        exact obeys_obey { r with channel := .one } command
    | two => exact ⟨fun _ hc ↦ Option.some.inj hc, nofun⟩
  | preamble channel row column =>
    refine ⟨fun _ hc ↦ ?_, nofun⟩
    rw [← Option.some.inj hc]
    cases channel with
    | one => cases row <;> rfl
    | two => rfl
  | midRow channel =>
    refine ⟨fun _ hc ↦ ?_, nofun⟩
    rw [← Option.some.inj hc]
    cases channel with
    | one => exact channel_write { r with channel := .one } [' ']
    | two => rfl
  | _ => exact ⟨nofun, nofun⟩

/-- What is set does not hang on the gates. -/
theorem Heeds.frame {c : Code} (h : r.Heeds c) (last : BytePair) (inPacket : Bool) :
    ({ r with last, inPacket } : Receiver).Heeds c :=
  ⟨h.channel, h.command⟩

/-- If what the last pair set is set, so it is after the next pair. -/
theorem heeds_step (h : r.Heeds r.last.code) (p : BytePair) :
    (r.step p).1.Heeds (r.step p).1.last.code := by
  by_cases ha : r.Admits p
  · by_cases hd : r.Drops p
    · rw [step_of_drops hd]
      exact ⟨nofun, nofun⟩
    · rw [step_of_admits ha hd, last_act]
      exact heeds_act _ p.code
  · obtain ⟨inPacket, hp⟩ := r.exists_pass p.code
    rw [step_of_not_admits ha, hp]
    exact h.frame r.last inPacket

/-- In a receiver that can come about, what the last pair set is set. -/
theorem Reachable.heeds (h : r.Reachable) : r.Heeds r.last.code := by
  induction h with
  | fresh => exact ⟨nofun, nofun⟩
  | @receive r r' p moment h hr ih =>
    have hs := heeds_step ih p.stripped
    rw [step_of_receive hr] at hs
    exact hs

end Receiver

end Line21
