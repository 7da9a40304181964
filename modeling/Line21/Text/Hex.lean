import Line21.Text.Blank

/-!
# Hexadecimal digits

Bytes written as two digits each, of either case. Blanks may stand between the bytes of a
sequence but not inside one.
-/

namespace Line21.Text.Hex

/-- The value of a hexadecimal digit of either case. -/
def digit? (c : Char) : Option Nat :=
  if '0' ≤ c ∧ c ≤ '9' then some (c.toNat - 0x30)
  else if 'a' ≤ c ∧ c ≤ 'f' then some (c.toNat - 0x57)
  else if 'A' ≤ c ∧ c ≤ 'F' then some (c.toNat - 0x37)
  else none

/-- The digit, in lower case, of a value below sixteen. -/
def digit (n : Nat) : Char := Char.ofNat (if n < 10 then 0x30 + n else 0x57 + n)

/-- The byte that two digits spell. -/
def byte? (high low : Char) : Option UInt8 := do
  let h ← digit? high
  let l ← digit? low
  return UInt8.ofNat (16 * h + l)

/-- The two digits of a byte. -/
def ofByte (b : UInt8) : List Char := [digit (b.toNat / 16), digit (b.toNat % 16)]

/-- A number in lower-case digits, at least as many as asked. -/
def ofNat (width n : Nat) : List Char :=
  let digits := Nat.toDigits 16 n
  List.replicate (width - digits.length) '0' ++ digits

/-- The bytes that a text spells, when it holds nothing but pairs of digits and blanks
between the pairs. -/
def bytes? : List Char → Option (List UInt8)
  | [] => some []
  | [c] => if isPlainBlank c then some [] else none
  | c :: d :: rest =>
    if isPlainBlank c then bytes? (d :: rest)
    else do
      let b ← byte? c d
      return b :: (← bytes? rest)

/-- The digits of a sequence of bytes. -/
def ofBytes (bytes : List UInt8) : List Char := bytes.flatMap ofByte

/-- Reading a digit that was written gives its value back. -/
theorem digit?_digit {n : Nat} (h : n < 16) : digit? (digit n) = some n := by
  have : ∀ k : Fin 16, digit? (digit k.val) = some k.val := by decide
  exact this ⟨n, h⟩

/-- A written digit is not blank. -/
theorem isPlainBlank_digit {n : Nat} (h : n < 16) : isPlainBlank (digit n) = false := by
  have : ∀ k : Fin 16, isPlainBlank (digit k.val) = false := by decide
  exact this ⟨n, h⟩

/-- Reading a byte that was written gives it back. -/
theorem byte?_digit (b : UInt8) :
    byte? (digit (b.toNat / 16)) (digit (b.toNat % 16)) = some b := by
  have hb : b.toNat < 256 := b.toNat_lt
  have h : 16 * (b.toNat / 16) + b.toNat % 16 = b.toNat := by omega
  have hi : digit? (digit (b.toNat / 16)) = some (b.toNat / 16) := digit?_digit (by omega)
  have lo : digit? (digit (b.toNat % 16)) = some (b.toNat % 16) := digit?_digit (by omega)
  simp only [byte?, hi, lo, Option.bind_eq_bind, Option.bind_some, h, UInt8.ofNat_toNat]
  rfl

/-- Reading bytes that were written gives them back. -/
theorem bytes?_ofBytes (bs : List UInt8) : bytes? (ofBytes bs) = some bs := by
  induction bs with
  | nil => rfl
  | cons b bs ih =>
    have hb : b.toNat < 256 := b.toNat_lt
    have hn : isPlainBlank (digit (b.toNat / 16)) = false := isPlainBlank_digit (by omega)
    simp only [ofBytes, List.flatMap_cons, ofByte] at ih ⊢
    simp [bytes?, hn, byte?_digit, ih]

/-- The code point of a letter in lower case. -/
theorem toNat_toLower (c : Char) :
    c.toLower.toNat = if 0x41 ≤ c.toNat ∧ c.toNat ≤ 0x5a then c.toNat + 0x20 else c.toNat := by
  unfold Char.toLower
  split
  · next h =>
    have hn : 0x41 ≤ c.val.toNat ∧ c.val.toNat ≤ 0x5a := h
    have hs : ('a'.val - 'A'.val).toNat = 0x20 := rfl
    rw [Char.toNat, Char.toNat, if_pos hn, UInt32.toNat_add, hs]
    omega
  · next h => exact (if_neg h).symm

/-- The value of a digit, told from its code point. -/
theorem digit?_eq (c : Char) :
    digit? c =
      if 0x30 ≤ c.toNat ∧ c.toNat ≤ 0x39 then some (c.toNat - 0x30)
      else if 0x61 ≤ c.toNat ∧ c.toNat ≤ 0x66 then some (c.toNat - 0x57)
      else if 0x41 ≤ c.toNat ∧ c.toNat ≤ 0x46 then some (c.toNat - 0x37)
      else none := rfl

/-- A digit in lower case has the same value. -/
theorem digit?_toLower (c : Char) : digit? c.toLower = digit? c := by
  have h := toNat_toLower c
  rw [digit?_eq, digit?_eq, h]
  by_cases hupper : 0x41 ≤ c.toNat ∧ c.toNat ≤ 0x5a
  · have hnumber : ¬(0x30 ≤ c.toNat + 0x20 ∧ c.toNat + 0x20 ≤ 0x39) := by omega
    have hnumber' : ¬(0x30 ≤ c.toNat ∧ c.toNat ≤ 0x39) := by omega
    have hlower : ¬(0x61 ≤ c.toNat ∧ c.toNat ≤ 0x66) := by omega
    have hupper' : ¬(0x41 ≤ c.toNat + 0x20 ∧ c.toNat + 0x20 ≤ 0x46) := by omega
    have hvalue : c.toNat + 0x20 - 0x57 = c.toNat - 0x37 := by omega
    rw [if_pos hupper, if_neg hnumber, if_neg hnumber', if_neg hlower, if_neg hupper', hvalue]
    have hdigit : (0x61 ≤ c.toNat + 0x20 ∧ c.toNat + 0x20 ≤ 0x66) ↔
        (0x41 ≤ c.toNat ∧ c.toNat ≤ 0x46) := by omega
    simp only [hdigit]
  · rw [if_neg hupper]

/-- A character in lower case is as blank as it was. -/
theorem isPlainBlank_toLower (c : Char) : isPlainBlank c.toLower = isPlainBlank c := by
  have h := toNat_toLower c
  have hs : ∀ c : Char, c = ' ' ↔ c.toNat = 0x20 := fun c ↦
    ⟨fun h ↦ h ▸ rfl, fun h ↦ Char.toNat_inj.mp h⟩
  rw [Bool.eq_iff_iff]
  simp only [isPlainBlank, Bool.or_eq_true, beq_iff_eq, hs, Bool.and_eq_true, decide_eq_true_eq]
  split at h <;> omega

/-- Digits may be read in lower case. -/
theorem bytes?_map_toLower (cs : List Char) : bytes? (cs.map Char.toLower) = bytes? cs := by
  fun_induction bytes? cs with
  | case1 => rfl
  | case2 c h =>
    rw [List.map_singleton, bytes?, isPlainBlank_toLower, if_pos h]
  | case3 c h =>
    rw [List.map_singleton, bytes?, isPlainBlank_toLower, if_neg h]
  | case4 c d rest h ih =>
    rw [List.map_cons, List.map_cons, bytes?, isPlainBlank_toLower, if_pos h, ← List.map_cons, ih]
  | case5 c d rest h ih =>
    have hb : byte? c.toLower d.toLower = byte? c d := by
      rw [byte?, byte?, digit?_toLower, digit?_toLower]
    rw [List.map_cons, List.map_cons, bytes?, isPlainBlank_toLower, if_neg h, hb, ih]

end Line21.Text.Hex
