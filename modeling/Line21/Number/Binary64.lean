/-!
# Binary64 numbers

The finite numbers of the 64-bit binary floating-point format, as the rationals they denote:
an integer below `2 ^ 53` in magnitude times a power of two that is at least `2 ^ (-1074)`.
`nearest?` rounds any rational to the format, half to even, and fails where the format has
no finite number left. Arithmetic on binary64 numbers is exact arithmetic followed by
`nearest?`, and has the errors that are listed here.
-/

namespace Line21.Number

/-- Why a number could not be computed. -/
inductive NumberError
  /-- An integer is past the greatest binary64 number. -/
  | integerRange
  /-- A quotient of integers is past the greatest binary64 number. -/
  | quotientRange
  /-- A quotient of binary64 numbers is infinite and has no nearest integer. -/
  | infinite
  /-- An integer is divided by zero. -/
  | zeroDivisor
  /-- A binary64 number is divided by zero. -/
  | binaryZeroDivisor
  deriving DecidableEq, Repr

/-- The text of an error of arithmetic. -/
def NumberError.message : NumberError → String
  | .integerRange => "int too large to convert to float"
  | .quotientRange => "integer division result too large for a float"
  | .infinite => "cannot convert float infinity to integer"
  | .zeroDivisor => "division by zero"
  | .binaryZeroDivisor => "float division by zero"

/-! ### Rounding to an integer -/

/-- The integer nearest to a rational; of two equally near, the even one. -/
def halfEven (q : Rat) : Int :=
  let low := q.floor
  let rest := q - low
  if rest < 1 / 2 then low
  else if 1 / 2 < rest then low + 1
  else if low % 2 = 0 then low else low + 1

/-- An integer is its own rounding. -/
theorem halfEven_intCast (n : Int) : halfEven n = n := by
  have h : (n : Rat) - n < 1 / 2 := by rw [Rat.sub_self]; decide +kernel
  simp only [halfEven, Rat.floor_intCast, if_pos h]

/-- The rounding is the floor or the integer after it. -/
theorem halfEven_eq_or (q : Rat) : halfEven q = q.floor ∨ halfEven q = q.floor + 1 := by
  simp only [halfEven]
  split
  · exact .inl rfl
  · split
    · exact .inr rfl
    · split
      · exact .inl rfl
      · exact .inr rfl

example : halfEven (5 / 2) = 2 := by decide +kernel
example : halfEven (-3 / 2) = -2 := by decide +kernel

/-! ### Rounding to the format -/

namespace Binary64

/-- The exponent of the greatest power of two that is no greater than a rational's magnitude. -/
def magnitude (q : Rat) : Int :=
  let e : Int := (q.num.natAbs.log2 : Int) - q.den.log2
  if (2 : Rat) ^ e ≤ q.abs then e else e - 1

/-- The exponent of the spacing of binary64 numbers around a rational. -/
def spacing (q : Rat) : Int :=
  if q = 0 then -1074 else max (magnitude q - 52) (-1074)

/-- A rational rounded to the spacing around it, half to even. -/
def rounded (q : Rat) : Rat := halfEven (q / 2 ^ spacing q) * 2 ^ spacing q

/-- The binary64 number nearest to a rational, half to even; none past the greatest one. -/
def nearest? (q : Rat) : Option Rat :=
  let r := rounded q
  if r.abs < 2 ^ (1024 : Int) then some r else none

/-- The 64 bits of a binary64 number: sign, exponent and fraction, from the top. -/
def bits (x : Rat) : Nat :=
  let significand := (x.abs / 2 ^ spacing x).num.toNat
  let exponent := (spacing x + 1074).toNat
  (if x < 0 then 0x8000000000000000 else 0) + exponent * 0x10000000000000 + significand

example : nearest? (1 / 10) = some (3602879701896397 / 36028797018963968) := by decide +kernel
example : bits 1 = 0x3ff0000000000000 := by decide +kernel
example : bits 0 = 0 := by decide +kernel
example : bits (-2) = 0xc000000000000000 := by decide +kernel

end Binary64

end Line21.Number
