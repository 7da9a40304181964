import Line21.Proofs.Receiver.Gates

/-!
# Extended data packets

A packet is told by the first bytes of its pairs. Only commands and preambles interrupt it, and
no pair with a first byte of a packet is one of those.
-/

namespace Line21

namespace BytePair

/-- A pair starts an extended data packet. -/
def startsPacket (p : BytePair) : Bool := 0x01 ≤ p.first && p.first ≤ 0x0e

/-- A pair ends an extended data packet. -/
def endsPacket (p : BytePair) : Bool := p.first == 0x0f

/-- A pair may stand inside an extended data packet: it neither ends nor interrupts it. -/
def fillsPacket (p : BytePair) : Bool := !p.isControl && !p.isPreamble && !p.endsPacket

/-- A pair with a first byte of a packet belongs to one. -/
theorem code_of_inPacket {p : BytePair} (h : p.inPacket = true) :
    p.code = .packet p.endsPacket := by
  have hz : p ≠ zero := by
    rintro rfl
    cases h
  rw [code, if_neg hz, if_pos h]
  rfl

/-- A pair that starts a packet belongs to it and does not end it. -/
theorem inPacket_of_startsPacket {p : BytePair} (h : p.startsPacket = true) :
    p.inPacket = true ∧ p.endsPacket = false := by
  simp only [startsPacket, Bool.and_eq_true, decide_eq_true_eq] at h
  constructor
  · simp only [inPacket, Bool.and_eq_true, decide_eq_true_eq]
    exact ⟨h.1, UInt8.le_trans h.2 (by decide)⟩
  · rw [endsPacket, beq_eq_false_iff_ne]
    intro hf
    rw [hf] at h
    exact absurd h.2 (by decide)

/-- A pair that ends a packet belongs to it. -/
theorem inPacket_of_endsPacket {p : BytePair} (h : p.endsPacket = true) : p.inPacket = true := by
  rw [inPacket, eq_of_beq h]
  decide

private theorem inPacket_of_code {p : BytePair} {ends : Bool} (h : p.code = .packet ends) :
    p.inPacket = true := by
  by_cases hi : p.inPacket = true
  · exact hi
  · rw [code, if_neg hi] at h
    repeat' split at h
    all_goals cases h

private theorem interrupts_code {p : BytePair} (hc : p.isControl = false)
    (hp : p.isPreamble = false) :
    p.code.interrupts = false := by
  rw [code, hc, hp]
  repeat' split
  all_goals first | rfl | contradiction

/-- Commands and preambles interrupt a packet. -/
theorem interrupts_code_of_or {p : BytePair} (h : p.isControl = true ∨ p.isPreamble = true) :
    p.code.interrupts = true := by
  have hfirst : p.first &&& 0x76 = 0x14 ∨ p.first &&& 0x70 = 0x10 :=
    h.imp (fun hc ↦ eq_of_beq (Bool.and_eq_true_iff.mp hc).1)
      (fun hp ↦ eq_of_beq (Bool.and_eq_true_iff.mp hp).1)
  have hlow : ¬ p.first ≤ 0x0f := byte_cases
    (fun b ↦ b &&& 0x76 = 0x14 ∨ b &&& 0x70 = 0x10 → ¬ b ≤ 0x0f) (by decide +kernel) p.first hfirst
  have hi : ¬ p.inPacket = true := fun hi ↦ hlow (of_decide_eq_true (Bool.and_eq_true_iff.mp hi).2)
  have hz : p ≠ zero := by
    rintro rfl
    exact hlow (by decide)
  rw [code, if_neg hz, if_neg hi]
  by_cases hc : p.isControl = true
  · rw [if_pos hc]
    rfl
  · have hp := h.resolve_left hc
    have ht : ¬ p.isTab = true := fun ht ↦ byte_cases
      (fun b ↦ b &&& 0x40 = 0x40 → ¬ b &&& 0x7c = 0x20) (by decide +kernel) p.second
      (eq_of_beq (Bool.and_eq_true_iff.mp hp).2)
      (eq_of_beq (Bool.and_eq_true_iff.mp (Bool.and_eq_true_iff.mp ht).1).2)
    rw [if_neg hc, if_neg ht, if_pos hp]
    rfl

/-- A pair with content and without a first byte of a packet is heard. -/
theorem isHeard_code {p : BytePair} (hz : p ≠ zero) (hp : p.inPacket = false) :
    p.code.isHeard = true := by
  rw [code, if_neg hz, hp]
  repeat' split
  all_goals first | rfl | contradiction

end BytePair

namespace Receiver

/-- Of a pair with a first byte of a packet only its end is told from the rest. -/
theorem step_of_inPacket {p : BytePair} (h : p.inPacket = true) (r : Receiver) :
    r.step p = ({ r with inPacket := !p.endsPacket }, .quiet) := by
  simp only [step, BytePair.code_of_inPacket h]

/-- Inside a packet nothing is heard of a pair that fills it. -/
theorem step_of_fillsPacket {p : BytePair} (h : p.fillsPacket = true) {r : Receiver}
    (hr : r.inPacket = true) : r.step p = (r, .quiet) := by
  simp only [BytePair.fillsPacket, Bool.and_eq_true, Bool.not_eq_true'] at h
  obtain ⟨⟨hc, hp⟩, he⟩ := h
  by_cases hi : p.inPacket = true
  · rw [step_of_inPacket hi, he, Bool.not_false, ← hr]
  · unfold step
    split
    · rfl
    · next ends hcode => exact absurd (BytePair.inPacket_of_code hcode) hi
    · rw [if_pos hr, if_neg]
      rw [BytePair.interrupts_code hc hp]
      exact Bool.false_ne_true

end Receiver

end Line21
