import Line21.Proofs.Receiver.Bare
import Line21.Proofs.Receiver.Packets
import Mathlib.Tactic.IntervalCases

/-!
# Pairs as numbers

A pair is told apart by masks over its sixteen bits, or by masks over each of its bytes. Both say
the same. What the shifted bits of a pair point to in a table is there, and is what the pair says.
-/

namespace Line21

/-- The number of a channel. -/
def Channel.number : Channel → Nat
  | .one => 1
  | .two => 2

/-- Channel one is known by its number. -/
theorem Channel.number_eq_one_iff {c : Channel} : c.number = 1 ↔ c = .one := by
  cases c <;> decide

namespace BytePair

/-- A pair is known by its number. -/
theorem toNat_inj {p q : BytePair} : p.toNat = q.toNat ↔ p = q := by
  refine ⟨fun h ↦ ?_, congrArg toNat⟩
  rw [← ofNat_toNat p, h, ofNat_toNat]

/-- Pairs are compared by their numbers. -/
theorem toNat_beq (p q : BytePair) : (p.toNat == q.toNat) = decide (p = q) := by
  rw [Bool.beq_eq_decide_eq, decide_eq_decide]
  exact toNat_inj

/-- The top bits of a pair are those of its first byte. -/
theorem toNat_shiftRight (p : BytePair) : p.toNat >>> 8 = p.first.toNat := by
  have h := p.second.toNat_lt
  rw [Nat.shiftRight_eq_div_pow, toNat]
  omega

/-- A mask over a pair masks each byte. -/
theorem toNat_and (p q : BytePair) :
    p.toNat &&& q.toNat = toNat ⟨p.first &&& q.first, p.second &&& q.second⟩ := by
  apply Nat.eq_of_testBit_eq
  intro i
  have hbit (p : BytePair) : p.toNat.testBit i =
      if i < 8 then p.second.toNat.testBit i else p.first.toNat.testBit (i - 8) :=
    Nat.testBit_two_pow_mul_add p.first.toNat p.second.toNat_lt i
  rw [Nat.testBit_and, hbit, hbit, hbit, UInt8.toNat_and, UInt8.toNat_and, Nat.testBit_and,
    Nat.testBit_and]
  split <;> rfl

/-- Masked pairs are compared byte by byte. -/
theorem toNat_and_beq (p mask value : BytePair) :
    (p.toNat &&& mask.toNat == value.toNat) =
      (p.first &&& mask.first == value.first && p.second &&& mask.second == value.second) := by
  rcases value with ⟨first, second⟩
  rw [toNat_and, toNat_beq, Bool.beq_eq_decide_eq, Bool.beq_eq_decide_eq, ← Bool.decide_and,
    decide_eq_decide, mk.injEq]

/-- A mask over the low bits of a pair masks its second byte. -/
theorem toNat_and_second (p : BytePair) (mask : UInt8) :
    p.toNat &&& mask.toNat = (p.second &&& mask).toNat := by
  have h := p.toNat_and ⟨0, mask⟩
  have hnumber (b : UInt8) : toNat ⟨0, b⟩ = b.toNat := Nat.zero_add _
  rw [UInt8.and_zero, hnumber, hnumber] at h
  exact h

/-- A mask over the top bits of a pair masks its first byte. -/
theorem toNat_and_first (p : BytePair) (mask : UInt8) :
    p.toNat &&& 256 * mask.toNat = 256 * (p.first &&& mask).toNat := by
  have h := p.toNat_and ⟨mask, 0⟩
  rw [UInt8.and_zero] at h
  exact h

/-- The low bits of a pair are those of its second byte. -/
theorem toNat_and_low (p : BytePair) {b : Nat} (h : b ≤ 8) :
    p.toNat &&& (2 ^ b - 1) = p.second.toNat % 2 ^ b := by
  have hd : 2 ^ b ∣ 256 * p.first.toNat := Nat.dvd_mul_right_of_dvd (Nat.pow_dvd_pow 2 h) _
  rw [Nat.and_two_pow_sub_one_eq_mod, toNat, Nat.add_mod, Nat.mod_eq_zero_of_dvd hd, Nat.zero_add,
    Nat.mod_mod]

/-- The low eight bits of a pair are its second byte. -/
theorem toNat_and_ff (p : BytePair) : p.toNat &&& 0xff = p.second.toNat :=
  (p.toNat_and_low (b := 8) (by decide)).trans (Nat.mod_eq_of_lt p.second.toNat_lt)

/-! ### Kinds of pairs -/

variable (p : BytePair)

/-- The parity of a pair is told by the bits of its number. -/
theorem hasOddBits_toNat :
    (Bare.hasOddBits (p.toNat >>> 8) && Bare.hasOddBits p.toNat) = p.parityHolds := by
  have hfirst : p.first.toNat &&& 0xff = p.first.toNat :=
    Nat.and_two_pow_sub_one_of_lt_two_pow (n := 8) p.first.toNat_lt
  rw [Bare.hasOddBits, Bare.hasOddBits, toNat_shiftRight, hfirst, toNat_and_ff]
  rfl

/-- A pair without content is the number zero. -/
theorem toNat_eq_zero_iff : p.toNat = 0 ↔ p = zero := toNat_inj (q := zero)

/-- Packets are told apart by the top bits. -/
theorem isPacket_toNat : Bare.isPacket p.toNat = p.inPacket := by
  rw [Bare.isPacket, toNat_shiftRight]
  rfl

/-- The end of a packet is told apart by the top bits. -/
theorem endsPacket_toNat : Bare.endsPacket p.toNat = p.endsPacket := by
  rw [Bare.endsPacket, endsPacket, toNat_shiftRight, Bool.beq_eq_decide_eq, Bool.beq_eq_decide_eq,
    decide_eq_decide]
  exact UInt8.toNat_inj (b := 0x0f)

/-- Control pairs are told apart by a mask. -/
theorem isControl_toNat : Bare.isControl p.toNat = p.isControl :=
  p.toNat_and_beq ⟨0x76, 0x70⟩ ⟨0x14, 0x20⟩

/-- Tabs are told apart by masks. -/
theorem isTab_toNat : Bare.isTab p.toNat = p.isTab := by
  have hkind := p.toNat_and_beq ⟨0x77, 0x7c⟩ ⟨0x17, 0x20⟩
  have hcolumns : (p.toNat &&& 0x0003 == 0) = (p.second &&& 0x03 == 0) := by
    have hmask : p.toNat &&& 0x0003 = (p.second &&& 0x03).toNat := p.toNat_and_second 0x03
    rw [hmask, Bool.beq_eq_decide_eq, Bool.beq_eq_decide_eq, decide_eq_decide]
    exact UInt8.toNat_inj (b := 0)
  rw [Bare.isTab, bne, hcolumns]
  exact congrArg (· && p.second &&& 0x03 != 0) hkind

/-- Preambles are told apart by a mask. -/
theorem isPreamble_toNat : Bare.isPreamble p.toNat = p.isPreamble :=
  p.toNat_and_beq ⟨0x70, 0x40⟩ ⟨0x10, 0x40⟩

/-- Mid-row codes are told apart by a mask. -/
theorem isMidRow_toNat : Bare.isMidRow p.toNat = p.isMidRow :=
  p.toNat_and_beq ⟨0x77, 0x70⟩ ⟨0x11, 0x20⟩

/-- Special characters are told apart by a mask. -/
theorem isSpecial_toNat : Bare.isSpecial p.toNat = p.isSpecial :=
  p.toNat_and_beq ⟨0x77, 0x70⟩ ⟨0x11, 0x30⟩

/-- Extended characters are told apart by a mask. -/
theorem isExtended_toNat : Bare.isExtended p.toNat = p.isExtended :=
  p.toNat_and_beq ⟨0x76, 0x60⟩ ⟨0x12, 0x20⟩

/-- Basic characters are told apart by the top bits. -/
theorem isBasic_toNat : Bare.isBasic p.toNat = p.isBasic := by
  rw [Bare.isBasic, toNat_shiftRight]
  rfl

/-- A bit of the first byte is asked for by a mask over the top bits. -/
theorem and_eq_zero_iff (mask : UInt8) :
    p.toNat &&& 256 * mask.toNat = 0 ↔ p.first &&& mask = 0 := by
  rw [toNat_and_first, Nat.mul_eq_zero]
  exact (or_iff_right (by decide)).trans (UInt8.toNat_inj (b := 0))

/-- The channel of a pair is told by a mask. -/
theorem channelOf_toNat : Bare.channelOf p.toNat = p.channel.number := by
  have hbit : p.toNat &&& 0x0800 = 0 ↔ p.first &&& 0x08 = 0 := p.and_eq_zero_iff 0x08
  rw [Bare.channelOf, if_congr hbit rfl rfl, channel]
  split <;> rfl

/-! ### Places in tables -/

private theorem rowPlace_toNat :
    Bare.rowPlace p.toNat = 2 * (p.first.toNat % 8) + p.second.toNat / 32 % 2 := by
  have hfirst := byte_cases
    (fun b ↦ (256 * (b &&& 0x07).toNat) >>> 7 = 2 * (b.toNat % 8)) (by decide +kernel) p.first
  have hsecond := byte_cases
    (fun b ↦ (b &&& 0x20).toNat >>> 5 = b.toNat / 32 % 2) (by decide +kernel) p.second
  have hmask₁ : p.toNat &&& 0x0700 = 256 * (p.first &&& 0x07).toNat := p.toNat_and_first 0x07
  have hmask₂ : p.toNat &&& 0x0020 = (p.second &&& 0x20).toNat := p.toNat_and_second 0x20
  rw [Bare.rowPlace, hmask₁, hmask₂, hfirst, hsecond]
  exact (Nat.two_pow_add_eq_or_of_lt (i := 1) (Nat.mod_lt _ (by decide)) _).symm

/-- The column of a preamble is four times three of its bits, or none. -/
theorem columnOf_toNat : Bare.columnOf p.toNat = p.preambleColumn.val := by
  have hbits := byte_cases
    (fun b ↦ (b &&& 0x0e).toNat >>> 1 = b.toNat / 2 % 8) (by decide +kernel) p.second
  have hmask₁ : p.toNat &&& 0x0010 = (p.second &&& 0x10).toNat := p.toNat_and_second 0x10
  have hmask₂ : p.toNat &&& 0x000e = (p.second &&& 0x0e).toNat := p.toNat_and_second 0x0e
  have hindent : (p.second &&& 0x10).toNat = 0 ↔ p.second &&& 0x10 = 0 :=
    UInt8.toNat_inj (b := 0)
  rw [Bare.columnOf, preambleColumn, hmask₁, hmask₂, hbits]
  by_cases hc : p.second &&& 0x10 = 0
  · rw [if_pos hc, if_pos (hindent.mpr hc)]
    rfl
  · rw [if_neg hc, if_neg (mt hindent.mp hc)]

/-- What stands at the place of a preamble is its row, or negative. -/
theorem getElem?_rowTable :
    Bare.rowTable[Bare.rowPlace p.toNat]? =
      some (p.preambleRow.elim (-1) fun row ↦ (row.val : Int)) := by
  have hlt : 2 * (p.first.toNat % 8) + p.second.toNat / 32 % 2 < 16 := by omega
  rw [rowPlace_toNat, preambleRow]
  generalize 2 * (p.first.toNat % 8) + p.second.toNat / 32 % 2 = n at hlt
  interval_cases n <;> rfl

/-- A special character stands at the place that the low bits of its pair tell. -/
theorem getElem?_specials :
    Charset.specials.toList[p.toNat &&& 0x0f]? = some (Charset.special p.second) := by
  have hplace : p.toNat &&& 0x0f = p.second.toNat % 16 := p.toNat_and_low (b := 4) (by decide)
  have hlt : p.second.toNat % 16 < 16 := Nat.mod_lt _ (by decide)
  rw [hplace, Vector.getElem?_toList, Vector.getElem?_eq_getElem hlt]
  rfl

/-- An extended character stands at the place that the low bits of its pair tell. -/
theorem getElem?_extended :
    (if p.toNat &&& 0x0100 = 0 then Charset.spanishFrench
      else Charset.portugueseGerman).toList[p.toNat &&& 0x1f]? = some (Charset.extended p) := by
  have hplace : p.toNat &&& 0x1f = p.second.toNat % 32 := p.toNat_and_low (b := 5) (by decide)
  have hlt : p.second.toNat % 32 < 32 := Nat.mod_lt _ (by decide)
  have hbit : p.toNat &&& 0x0100 = 0 ↔ p.first &&& 0x01 = 0 := p.and_eq_zero_iff 0x01
  rw [hplace, if_congr hbit rfl rfl, Vector.getElem?_toList, Vector.getElem?_eq_getElem hlt,
    Charset.extended]
  split <;> rfl

/-- A basic character stands at the place of its byte. -/
theorem getElem?_basics {b : UInt8} (hl : 0x20 ≤ b.toNat) (hu : b.toNat < 0x80) :
    Charset.basics[b.toNat - 0x20]? = some (Charset.basic b) := by
  have hlt : b.toNat - 0x20 < 0x60 := by omega
  have hb : 0x20 + (b.toNat - 0x20) = b.toNat := by omega
  rw [Charset.basics, List.getElem?_map, List.getElem?_range' hlt, Nat.one_mul, hb]
  exact congrArg (some ∘ Charset.basic) UInt8.ofNat_toNat

end BytePair

end Line21
