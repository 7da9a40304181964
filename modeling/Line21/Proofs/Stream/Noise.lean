import Line21.Proofs.Conversion.Turns
import Line21.Proofs.Receiver.Packets

/-!
# Noise between units

A stream passes over units that say nothing, and its receiver skips extended data packets.
Such noise may stand between the units of a stream, a whole packet wherever no other packet is
under way. Main statement: the noise leaves no trace, neither in the stream nor with its
consumer, whatever the consumer does.
-/

namespace Line21

open Number.Binary64 (nearest?)

/-! ### Units that make noise -/

namespace CaptionUnit

/-- The pair that a unit carries, unless it is too short for one. -/
def pair? (u : CaptionUnit) : Option BytePair :=
  match u.data with
  | first :: second :: _ => some ⟨first, second⟩
  | _ => none

/-- A unit has a time, which in seconds is a binary64 number. -/
def IsTimed (u : CaptionUnit) : Prop := ∃ time ∈ u.time, TimeInRange time

instance (u : CaptionUnit) : Decidable u.IsTimed :=
  inferInstanceAs (Decidable (∃ time ∈ u.time, TimeInRange time))

/-- A unit says nothing: it is too short for a pair, or its pair has lost its parity or is
padding. -/
inductive IsIdle (u : CaptionUnit) : Prop
  | short (length : u.data.length < 2)
  | corrupt {p : BytePair} (pair : u.pair? = some p) (parity : p.parityHolds = false)
  | padding {p : BytePair} (pair : u.pair? = some p) (zero : p.stripped = .zero)

/-- A unit carries a pair of a kind, with its parity. -/
def Carries (u : CaptionUnit) (kind : BytePair → Bool) : Prop :=
  ∃ p, u.pair? = some p ∧ p.parityHolds = true ∧ kind p.stripped = true

end CaptionUnit

/-- The units of a whole extended data packet. Units that say nothing may stand among those
that fill it. -/
structure Packet where
  opening : CaptionUnit
  filling : List CaptionUnit
  closing : CaptionUnit
  starts : opening.Carries BytePair.startsPacket
  fills : ∀ u ∈ filling, u.IsIdle ∨ u.Carries BytePair.fillsPacket
  ends : closing.Carries BytePair.endsPacket

/-- The units of a packet in order. -/
def Packet.units (p : Packet) : List CaptionUnit := p.opening :: (p.filling ++ [p.closing])

namespace Stream

/-- A unit that carries a pair is heard under the format that was agreed upon. -/
theorem heard?_of_pair? {δ : Type} {s : Stream δ} {f : Format} (hf : s.format = some f)
    {u : CaptionUnit} (ht : u.IsTimed) {p : BytePair} (hp : u.pair? = some p) :
    ∃ time seconds, s.heard? u = some (f, time, p, seconds) := by
  obtain ⟨time, ht, hs⟩ := ht
  rw [Option.mem_def] at ht
  obtain ⟨seconds, hs⟩ := Option.isSome_iff_exists.mp hs
  unfold CaptionUnit.pair? at hp
  split at hp
  · next first second rest hd =>
    obtain rfl := Option.some.inj hp
    exact ⟨time, seconds, by simp only [heard?, hf, ht, hd, hs, Option.map_some]⟩
  · cases hp

/-- A pair that is heard quietly changes nothing but the receiver. -/
theorem accept_of_quiet {s : Stream Receiver} {f : Format} (hf : s.format = some f)
    {u : CaptionUnit} (ht : u.IsTimed) {p : BytePair} (hp : u.pair? = some p)
    (hparity : p.parityHolds = true) {r : Receiver}
    (hr : s.decoder.step p.stripped = (r, .quiet)) :
    s.accept u = .ok ({ s with decoder := r }, []) := by
  obtain ⟨time, seconds, hh⟩ := heard?_of_pair? hf ht hp
  have hd : CaptionDecoder.decode s.decoder p seconds = (r, .ok .quiet) := by
    apply CaptionDecoder.decode_of_receive_ok
    rw [Receiver.receive_of_parityHolds hparity, hr]
  rw [(accept_of_heard?_eq_some hh).2, hd]
  rfl

/-- A pair that has lost its parity changes nothing. -/
theorem accept_of_corrupt {s : Stream Receiver} {f : Format} (hf : s.format = some f)
    {u : CaptionUnit} (ht : u.IsTimed) {p : BytePair} (hp : u.pair? = some p)
    (hparity : p.parityHolds = false) : s.accept u = .ok (s, []) := by
  obtain ⟨time, seconds, hh⟩ := heard?_of_pair? hf ht hp
  have hd : CaptionDecoder.decode s.decoder p seconds = (s.decoder, .error ⟨p⟩) := by
    apply CaptionDecoder.decode_of_receive_error
    rw [Receiver.receive, hparity]
    rfl
  rw [(accept_of_heard?_eq_some hh).2, hd]
  rfl

/-- A unit with a time and without a pair changes nothing. -/
theorem accept_of_short {δ : Type} [CaptionDecoder δ] {s : Stream δ} {f : Format}
    (hf : s.format = some f) {u : CaptionUnit} {time : Int} (ht : u.time = some time)
    (h : u.data.length < 2) : s.accept u = .ok (s, []) := by
  simp only [accept, hf, ht]
  unfold acceptTimed
  split
  · next first second rest hd =>
    rw [hd, List.length_cons, List.length_cons] at h
    omega
  · rfl

/-- A unit that says nothing changes nothing. -/
theorem accept_of_isIdle {s : Stream Receiver} {f : Format} (hf : s.format = some f)
    {u : CaptionUnit} (ht : u.IsTimed) (h : u.IsIdle) : s.accept u = .ok (s, []) := by
  cases h with
  | short length =>
    obtain ⟨time, ht, -⟩ := ht
    exact accept_of_short hf ht length
  | corrupt pair parity => exact accept_of_corrupt hf ht pair parity
  | padding pair zero =>
    rename_i p
    cases parity : p.parityHolds with
    | true => exact accept_of_quiet hf ht pair parity (by rw [zero]; rfl)
    | false => exact accept_of_corrupt hf ht pair parity

private theorem accept_of_fills {s : Stream Receiver} {f : Format} (hf : s.format = some f)
    (hr : s.decoder.inPacket = true) {u : CaptionUnit} (ht : u.IsTimed)
    (h : u.IsIdle ∨ u.Carries BytePair.fillsPacket) : s.accept u = .ok (s, []) := by
  rcases h with h | ⟨p, pair, parity, hp⟩
  · exact accept_of_isIdle hf ht h
  · exact accept_of_quiet hf ht pair parity (Receiver.step_of_fillsPacket hp hr)

end Stream

/-! ### Streams with noise -/

namespace Link

variable {σ : Type} [Downstream σ]

/-- Units of a stream with noise between them. A unit that says nothing may come at any time,
and a packet when the receiver is not inside of one. -/
inductive Disturbed : Link Receiver σ → List CaptionUnit → List CaptionUnit → Prop
  | nil (l : Link Receiver σ) : Disturbed l [] []
  | unit {l : Link Receiver σ} {u : CaptionUnit} {us noisy : List CaptionUnit}
    (rest : Disturbed (l.accept u).1 us noisy) : Disturbed l (u :: us) (u :: noisy)
  | idle {l : Link Receiver σ} {u : CaptionUnit} {us noisy : List CaptionUnit}
    (idle : u.IsIdle) (timed : u.IsTimed) (rest : Disturbed l us noisy) :
    Disturbed l us (u :: noisy)
  | packet {l : Link Receiver σ} {p : Packet} {us noisy : List CaptionUnit}
    (outside : l.stream.decoder.inPacket = false) (timed : ∀ u ∈ p.units, u.IsTimed)
    (rest : Disturbed l us noisy) : Disturbed l us (p.units ++ noisy)

/-- Units that all change nothing are taken in without a trace. -/
theorem acceptAll_of_still {l : Link Receiver σ} {us : List CaptionUnit}
    (h : ∀ u ∈ us, l.stream.accept u = .ok (l.stream, [])) : l.acceptAll us = (l, .ok ()) := by
  induction us with
  | nil => rfl
  | cons u us ih =>
    rw [acceptAll, accept_of_silent (h u List.mem_cons_self)]
    exact ih fun v hv ↦ h v (List.mem_cons_of_mem u hv)

/-- A whole packet leaves no trace. -/
theorem acceptAll_packet {l : Link Receiver σ} {f : Format} (hf : l.stream.format = some f)
    (hr : l.stream.decoder.inPacket = false) {p : Packet} (ht : ∀ u ∈ p.units, u.IsTimed) :
    l.acceptAll p.units = (l, .ok ()) := by
  obtain ⟨opening, filling, closing, ⟨q, hq, hparity, hs⟩, hfills, ⟨q', hq', hparity', he⟩⟩ := p
  simp only [Packet.units, List.forall_mem_cons, List.forall_mem_append] at ht
  obtain ⟨ht₁, ht₂, ht₃, -⟩ := ht
  obtain ⟨hi, hn⟩ := BytePair.inPacket_of_startsPacket hs
  -- The link while the packet is under way.
  let inside : Link Receiver σ :=
    ⟨{ l.stream with decoder := { l.stream.decoder with inPacket := true } }, l.downstream⟩
  have hopen : l.accept opening = (inside, .ok ()) := by
    have h := Receiver.step_of_inPacket hi l.stream.decoder
    rw [hn] at h
    exact accept_of_silent (Stream.accept_of_quiet hf ht₁ hq hparity h)
  have hfill : inside.acceptAll filling = (inside, .ok ()) :=
    acceptAll_of_still fun u hu ↦
      Stream.accept_of_fills (s := inside.stream) hf rfl (ht₂ u hu) (hfills u hu)
  have hclose : inside.accept closing = (l, .ok ()) := by
    have h := Receiver.step_of_inPacket (BytePair.inPacket_of_endsPacket he) inside.stream.decoder
    rw [he, Bool.not_true, ← hr] at h
    exact accept_of_silent (Stream.accept_of_quiet (s := inside.stream) hf ht₃ hq' hparity' h)
  rw [Packet.units, acceptAll, hopen]
  dsimp only
  rw [(acceptAll_append hfill [closing]).2, acceptAll, hclose]
  rfl

/-- Units that leave no trace may go before any others. -/
theorem acceptAll_append_of_still {l : Link Receiver σ} {noise us noisy : List CaptionUnit}
    (hn : l.acceptAll noise = (l, .ok ()))
    (h : l.acceptAll noisy = l.acceptAll us ∧ l.run (noisy.map .unit) = l.run (us.map .unit)) :
    l.acceptAll (noise ++ noisy) = l.acceptAll us ∧
      l.run ((noise ++ noisy).map .unit) = l.run (us.map .unit) := by
  obtain ⟨hr, ha⟩ := acceptAll_append hn noisy
  rw [ha, List.map_append, run_append, hr]
  exact h

/-- Noise between the units of a stream that has agreed on a format leaves no trace. The same
units are taken in or refused with the same result, and the stream, its receiver and its
consumer are the same afterwards; so they are when calls go on after one that was refused. -/
theorem acceptAll_of_disturbed {l : Link Receiver σ} {us noisy : List CaptionUnit} {f : Format}
    (hf : l.stream.format = some f) (h : l.Disturbed us noisy) :
    l.acceptAll noisy = l.acceptAll us ∧ l.run (noisy.map .unit) = l.run (us.map .unit) := by
  induction h with
  | nil l => exact ⟨rfl, rfl⟩
  | @unit l u us noisy rest ih =>
    obtain ⟨ha, hr⟩ := ih ((l.format_accept u).trans hf)
    refine ⟨?_, hr⟩
    rw [acceptAll, acceptAll]
    split
    · next l' hu =>
      rw [hu] at ha
      exact ha
    · rfl
  | @idle l u us noisy idle timed rest ih =>
    have hu : l.acceptAll [u] = (l, .ok ()) := by
      apply acceptAll_of_still
      intro v hv
      obtain rfl := List.mem_singleton.mp hv
      exact Stream.accept_of_isIdle hf timed idle
    exact acceptAll_append_of_still hu (ih hf)
  | @packet l p us noisy outside timed rest ih =>
    exact acceptAll_append_of_still (acceptAll_packet hf outside timed) (ih hf)

/-- A packet in the middle of a caption looks like a special character and has a short unit among
its own. A pair without parity and padding follow. -/
theorem acceptAll_of_disturbed_packet :
    let opened := Link.opened .subRip
    let us : List CaptionUnit :=
      [⟨[0x94, 0x29], some 0⟩, ⟨[0xc1, 0x80], some 1000000000⟩,
        ⟨[0x94, 0x2c], some 2500000000⟩]
    let noisy : List CaptionUnit :=
      [⟨[0x94, 0x29], some 0⟩, ⟨[0x01, 0x01], some 7⟩, ⟨[0x91, 0xb0], some (-7)⟩, ⟨[0x94], some 7⟩,
        ⟨[0x8f, 0x80], some 7⟩, ⟨[0xc1, 0x80], some 1000000000⟩, ⟨[0x14, 0x20], some 0⟩,
        ⟨[0x80, 0x80], some 0⟩, ⟨[0x94, 0x2c], some 2500000000⟩]
    opened.stream.format = some .subRip ∧ opened.Disturbed us noisy ∧
      opened.acceptAll noisy = opened.acceptAll us ∧
      opened.run (noisy.map .unit) = opened.run (us.map .unit) := by
  intro opened us noisy
  let p : Packet :=
    { opening := ⟨[0x01, 0x01], some 7⟩
      filling := [⟨[0x91, 0xb0], some (-7)⟩, ⟨[0x94], some 7⟩]
      closing := ⟨[0x8f, 0x80], some 7⟩
      starts := ⟨⟨0x01, 0x01⟩, rfl, by decide +kernel, by decide⟩
      fills := by
        intro u hu
        simp only [List.mem_cons, List.not_mem_nil, or_false] at hu
        rcases hu with rfl | rfl
        · exact .inr ⟨⟨0x91, 0xb0⟩, rfl, by decide +kernel, by decide⟩
        · exact .inl (.short (by decide))
      ends := ⟨⟨0x8f, 0x80⟩, rfl, by decide +kernel, by decide⟩ }
  have hf : opened.stream.format = some .subRip := format_opened .subRip
  have h : opened.Disturbed us noisy := by
    refine .unit (.packet (p := p) (by decide +kernel) (by decide +kernel) (.unit ?_))
    refine .idle (.corrupt rfl (by decide +kernel)) (by decide +kernel) ?_
    exact .idle (.padding rfl (by decide)) (by decide +kernel) (.unit (.nil _))
  exact ⟨hf, h, acceptAll_of_disturbed hf h⟩

end Link

end Line21
