import Line21.Proofs.Conversion.Turns
import Line21.Proofs.Number.Range
import Line21.Source.Basic
import Mathlib.Algebra.Order.Ring.Cast

/-!
# Times and stamps

A time is put in seconds before its pair is decoded, which fails for times that are too far off.
Main statements: the least time that fails, that no stamp of a frame reaches it, and that at the
standard rate every frame has a stamp whose number is not enormous.
-/

namespace Line21

open Number
open Number.Binary64 (nearest? nearest?_eq_none_iff nearest?_eq_some_iff exists_nearest? rounded)

/-- The least time that is no binary64 number in seconds: as many seconds as there are in the middle
between the greatest of these numbers and `2 ^ 1024`. -/
def timeLimit : Nat := nanosecondsPerSecond * (2 ^ 1024 - 2 ^ 970)

/-- A time in seconds is a binary64 number when it stays short of the limit, early or late. -/
theorem timeInRange_iff {time : Int} : TimeInRange time ↔ time.natAbs < timeLimit := by
  have hsecond : (0 : Rat) < nanosecondsPerSecond := by norm_num [nanosecondsPerSecond]
  have hsub : (2 : Nat) ^ 970 ≤ 2 ^ 1024 := pow_le_pow_right₀ one_le_two (by decide)
  have hlimit : (timeLimit : Rat) = (2 ^ 1024 - 2 ^ 970) * nanosecondsPerSecond := by
    rw [timeLimit, Nat.cast_mul, Nat.cast_sub hsub, Nat.cast_pow, Nat.cast_pow, Nat.cast_ofNat,
      mul_comm]
  have habs : |(time : Rat) / nanosecondsPerSecond| =
      (time.natAbs : Rat) / nanosecondsPerSecond := by
    rw [abs_div, abs_of_pos hsecond, ← Int.cast_abs, Int.abs_eq_natAbs, Int.cast_natCast]
  rw [TimeInRange, Option.isSome_iff_ne_none, ne_eq, nearest?_eq_none_iff, not_le, habs,
    div_lt_iff₀ hsecond, ← hlimit, Nat.cast_lt]

namespace FrameRate

variable {rate : FrameRate} {frame time : Int}

/-- The quotient that a stamp rounds. A binary64 rate divides the binary64 number nearest to the
nanoseconds that the frames would take at one in a second, an integer rate those themselves. -/
def quotient (rate : FrameRate) (frame : Int) : Rat :=
  match rate with
  | .binary perSecond => rounded (frame * nanosecondsPerSecond) / perSecond
  | .whole perSecond => frame * nanosecondsPerSecond / perSecond

/-- A stamp is the rounded quotient, which is below the limit of binary64 numbers, rounded to an
integer. -/
theorem stamp_eq_ok (h : rate.stamp frame = .ok time) :
    |rounded (rate.quotient frame)| < 2 ^ 1024 ∧
      time = halfEven (rounded (rate.quotient frame)) := by
  unfold stamp at h
  cases rate with
  | binary perSecond =>
    dsimp only at h
    split at h
    · cases h
    · next n hn =>
      obtain ⟨rfl, -⟩ := nearest?_eq_some_iff.mp hn
      split at h
      · cases h
      · split at h
        · cases h
        · next q hq =>
          obtain ⟨rfl, hlt⟩ := nearest?_eq_some_iff.mp hq
          exact ⟨hlt, (Except.ok.inj h).symm⟩
  | whole perSecond =>
    dsimp only at h
    split at h
    · cases h
    · split at h
      · cases h
      · next q hq =>
        obtain ⟨rfl, hlt⟩ := nearest?_eq_some_iff.mp hq
        exact ⟨hlt, (Except.ok.inj h).symm⟩

/-- Every stamp is a time in range. -/
theorem timeInRange_of_stamp (h : rate.stamp frame = .ok time) : TimeInRange time := by
  obtain ⟨hlt, rfl⟩ := stamp_eq_ok h
  have hle : |rounded (rate.quotient frame)| ≤ ((2 ^ 1024 : Int) : Rat) := by
    rw [Int.cast_pow, Int.cast_ofNat]
    exact hlt.le
  have hround := abs_halfEven_le hle
  have hlimit : 2 ^ 1024 < timeLimit := by decide +kernel
  rw [Int.abs_eq_natAbs] at hround
  rw [timeInRange_iff]
  omega

private theorem one_le_standard : (1 : Rat) ≤ 1054476685978981 / 35184372088832 := by norm_num

/-- At the standard rate every frame of a number that is not enormous has a stamp, which is a time
in range. -/
theorem exists_stamp_standard (h : frame.natAbs ≤ 2 ^ 65) :
    ∃ time, standard.stamp frame = .ok time ∧ TimeInRange time := by
  have hframe : |(frame : Rat)| ≤ 2 ^ 65 := by
    rw [← Int.cast_abs, Int.abs_eq_natAbs, Int.cast_natCast]
    exact_mod_cast h
  have hsecond : |((nanosecondsPerSecond : Nat) : Rat)| ≤ 2 ^ 30 := by
    norm_num [nanosecondsPerSecond]
  have hfine : |(frame : Rat) * nanosecondsPerSecond| ≤ 2 ^ 95 := by
    rw [abs_mul, pow_add (2 : Rat) 65 30]
    exact mul_le_mul hframe hsecond (abs_nonneg _) (by positivity)
  obtain ⟨n, hn, hle⟩ := exists_nearest? (by decide) hfine
  have hquotient : |n / (1054476685978981 / 35184372088832)| ≤ 2 ^ 95 := by
    rw [abs_div, abs_of_pos (one_pos.trans_le one_le_standard)]
    exact (div_le_self (abs_nonneg n) one_le_standard).trans hle
  obtain ⟨q, hq, -⟩ := exists_nearest? (by decide) hquotient
  have hs : standard.stamp frame = .ok (halfEven q) := by
    have hzero : ¬ (1054476685978981 / 35184372088832 : Rat) = 0 :=
      (one_pos.trans_le one_le_standard).ne'
    unfold standard stamp
    dsimp only
    rw [hn]
    dsimp only
    rw [if_neg hzero, hq]
  exact ⟨_, hs, timeInRange_of_stamp hs⟩

end FrameRate

end Line21
