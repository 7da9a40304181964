/-!
# Byte pairs and their parity

Line 21 carries two bytes in each frame. The top bit of a byte is sent so that the number of
set bits is odd, and tells nothing else; what a pair says stands in the other seven bits.
-/

namespace Line21

/-- Two bytes of line 21, in the order in which they are sent. -/
structure BytePair where
  first : UInt8
  second : UInt8
  deriving DecidableEq, Repr

/-- A byte has an odd number of set bits. -/
def hasOddParity (b : UInt8) : Bool := (List.range 8).countP b.toNat.testBit % 2 == 1

/-- The seven bits of a byte under a top bit that makes its parity odd. -/
def withOddParity (b : UInt8) : UInt8 :=
  let bits := b &&& 0x7f
  if hasOddParity bits then bits else bits ||| 0x80

/-- The two caption services that share the pairs. -/
inductive Channel
  | one
  | two
  deriving DecidableEq, Repr

namespace BytePair

/-- The pair whose bytes are the two low bytes of a number. -/
def ofNat (n : Nat) : BytePair := ⟨UInt8.ofNat (n / 256), UInt8.ofNat n⟩

/-- A pair as a number of sixteen bits, the first byte on top. -/
def toNat (p : BytePair) : Nat := 256 * p.first.toNat + p.second.toNat

/-- Both bytes of a pair have odd parity. -/
def parityHolds (p : BytePair) : Bool := hasOddParity p.first && hasOddParity p.second

/-- A pair as it is sent: each byte with odd parity. -/
def sent (p : BytePair) : BytePair := ⟨withOddParity p.first, withOddParity p.second⟩

/-- A pair without its parity bits. -/
def stripped (p : BytePair) : BytePair := ⟨p.first &&& 0x7f, p.second &&& 0x7f⟩

/-- The channel that a pair would select, were it a code that selects one. -/
def channel (p : BytePair) : Channel := if p.first &&& 0x08 = 0 then .one else .two

/-- The pair of no content, which fills frames that have nothing to send. -/
def zero : BytePair := ⟨0, 0⟩

/-- A pair is the two low bytes of its number. -/
theorem ofNat_toNat (p : BytePair) : ofNat p.toNat = p := by
  have h1 := p.first.toNat_lt
  have h2 := p.second.toNat_lt
  have hd : (256 * p.first.toNat + p.second.toNat) / 256 = p.first.toNat := by omega
  have hm : UInt8.ofNat (256 * p.first.toNat + p.second.toNat) = p.second := by
    apply UInt8.toNat_inj.mp
    simp only [UInt8.toNat_ofNat']
    omega
  simp only [ofNat, toNat, hd, hm, UInt8.ofNat_toNat]

/-- What holds of the bytes of all numbers below 256 holds of all bytes. -/
theorem byte_cases (P : UInt8 → Prop) (h : ∀ n : Fin 256, P (UInt8.ofNat n.val))
    (b : UInt8) : P b := by
  have := h ⟨b.toNat, b.toNat_lt⟩
  simpa using this

/-- A byte that is sent has odd parity. -/
theorem hasOddParity_withOddParity (b : UInt8) : hasOddParity (withOddParity b) = true :=
  byte_cases (fun b ↦ hasOddParity (withOddParity b) = true) (by decide +kernel) b

/-- The parity bit is all that sending changes. -/
theorem withOddParity_and (b : UInt8) : withOddParity b &&& 0x7f = b &&& 0x7f :=
  byte_cases (fun b ↦ withOddParity b &&& 0x7f = b &&& 0x7f) (by decide +kernel) b

/-- Stripping a pair twice is stripping it once. -/
theorem stripped_stripped (p : BytePair) : p.stripped.stripped = p.stripped := by
  simp [stripped, UInt8.and_assoc]

/-- Every pair that is sent has its parity. -/
theorem parityHolds_sent (p : BytePair) : p.sent.parityHolds = true := by
  simp [parityHolds, sent, hasOddParity_withOddParity]

/-- What is sent says the same as what was to be sent. -/
theorem stripped_sent (p : BytePair) : p.sent.stripped = p.stripped := by
  simp [stripped, sent, withOddParity_and]

end BytePair

end Line21
