import Line21.Proofs.Number.Range

/-!
# Rounding to the nearest

Main statements: rounding to an integer or to a binary64 number never reverses the order of two
rationals, and moves a rational by half a unit at most. A number with 53 bits is not moved at all.
-/

namespace Line21.Number

variable {p q : Rat}

/-- Rounding keeps the order. -/
theorem halfEven_mono (h : p ≤ q) : halfEven p ≤ halfEven q := by
  have hf : p.floor ≤ q.floor := Rat.le_floor_iff.mpr ((Rat.floor_le p).trans h)
  have hp := halfEven_eq_or p
  have hq := halfEven_eq_or q
  rcases lt_or_eq_of_le hf with hlt | he
  · omega
  -- Between the same two integers the distances from the lower one decide.
  · have hrest : p - p.floor ≤ q - q.floor := by
      rw [he]
      exact sub_le_sub_right h _
    rcases lt_trichotomy (q - q.floor) (1 / 2) with hlt | heven | hgt
    · simp only [halfEven, if_pos hlt, if_pos (hrest.trans_lt hlt)]
      exact hf
    · rcases lt_or_eq_of_le hrest with hlt | hsame
      · have hlow : halfEven p = p.floor := if_pos (hlt.trans_eq heven)
        omega
      · rw [he] at hsame
        rw [sub_left_injective hsame]
    · have hhigh : halfEven q = q.floor + 1 := by
        simp only [halfEven, if_neg (lt_asymm hgt), if_pos hgt]
      omega

/-- Rounding moves a rational by half a unit at most. -/
theorem abs_halfEven_sub_le (q : Rat) : |halfEven q - q| ≤ 1 / 2 := by
  have hlow := Rat.floor_le q
  have hhigh := Rat.lt_floor_add_one q
  rw [Int.cast_add, Int.cast_one] at hhigh
  simp only [halfEven]
  rw [abs_le]
  split_ifs <;> push_cast <;> constructor <;> linarith

namespace Binary64

private theorem rounded_nonneg (h : 0 ≤ q) : 0 ≤ rounded q := by
  have hunit : (0 : Rat) < 2 ^ spacing q := zpow_pos two_pos _
  have hn : ((0 : Int) : Rat) ≤ q / 2 ^ spacing q := by
    rw [Int.cast_zero]
    exact div_nonneg h hunit.le
  have hh : (0 : Rat) ≤ halfEven (q / 2 ^ spacing q) := by exact_mod_cast le_halfEven hn
  exact mul_nonneg hh hunit.le

private theorem rounded_nonpos (h : q ≤ 0) : rounded q ≤ 0 := by
  have hunit : (0 : Rat) < 2 ^ spacing q := zpow_pos two_pos _
  have hn : q / 2 ^ spacing q ≤ ((0 : Int) : Rat) := by
    rw [Int.cast_zero]
    exact div_nonpos_of_nonpos_of_nonneg h hunit.le
  have hh : (halfEven (q / 2 ^ spacing q) : Rat) ≤ 0 := by exact_mod_cast halfEven_le hn
  exact mul_nonpos_of_nonpos_of_nonneg hh hunit.le

private theorem exists_between_of_spacing_lt (h : spacing p < spacing q) :
    ∃ k : Int, -1074 ≤ k ∧ |p| < 2 ^ k ∧ 2 ^ k ≤ |q| := by
  have hq : q ≠ 0 := by
    rintro rfl
    have hp : -1074 ≤ spacing p := by
      unfold spacing
      split <;> omega
    exact absurd h (not_lt.mpr hp)
  have hs : spacing q = max (magnitude q - 52) (-1074) := if_neg hq
  refine ⟨magnitude q, ?_, ?_, two_zpow_magnitude_le hq⟩
  · unfold spacing at h
    split at h <;> omega
  · by_contra hreach
    have hp : p ≠ 0 := abs_pos.mp ((zpow_pos two_pos _).trans_le (not_lt.mp hreach))
    have hm := le_magnitude hp (not_lt.mp hreach)
    rw [hs, spacing, if_neg hp] at h
    omega

private theorem abs_lt_of_spacing_lt (h : spacing p < spacing q) :
    |p| < |q| ∧ |rounded p| ≤ |rounded q| := by
  obtain ⟨k, hk, hp, hq⟩ := exists_between_of_spacing_lt h
  exact ⟨hp.trans_le hq, (abs_rounded_le hk hp.le).trans (le_abs_rounded hk hq)⟩

/-- Rounding to binary64 numbers keeps the order. -/
theorem rounded_mono (h : p ≤ q) : rounded p ≤ rounded q := by
  rcases lt_trichotomy (spacing p) (spacing q) with hs | hs | hs
  · obtain ⟨hlt, hle⟩ := abs_lt_of_spacing_lt hs
    -- The greater magnitude is that of the greater number, so that number is positive.
    have hq : 0 ≤ q := by
      by_contra hneg
      rw [abs_of_neg (not_le.mp hneg)] at hlt
      have := neg_abs_le p
      linarith
    calc rounded p ≤ |rounded p| := le_abs_self _
      _ ≤ |rounded q| := hle
      _ = rounded q := abs_of_nonneg (rounded_nonneg hq)
  · have hunit : (0 : Rat) < 2 ^ spacing q := zpow_pos two_pos _
    have hh : (halfEven (p / 2 ^ spacing q) : Rat) ≤ halfEven (q / 2 ^ spacing q) := by
      exact_mod_cast halfEven_mono (div_le_div_of_nonneg_right h hunit.le)
    rw [rounded, rounded, hs]
    exact mul_le_mul_of_nonneg_right hh hunit.le
  · obtain ⟨hlt, hle⟩ := abs_lt_of_spacing_lt hs
    have hp : p ≤ 0 := by
      by_contra hpos
      rw [abs_of_pos (not_le.mp hpos)] at hlt
      have := le_abs_self q
      linarith
    calc rounded p = -|rounded p| := by rw [abs_of_nonpos (rounded_nonpos hp), neg_neg]
      _ ≤ -|rounded q| := neg_le_neg hle
      _ ≤ rounded q := neg_abs_le _

/-- Rounding moves a rational by half of the spacing at most. -/
theorem abs_rounded_sub_le (q : Rat) : |rounded q - q| ≤ 2 ^ spacing q / 2 := by
  have hunit : (0 : Rat) < 2 ^ spacing q := zpow_pos two_pos _
  have hq : rounded q - q = (halfEven (q / 2 ^ spacing q) - q / 2 ^ spacing q) * 2 ^ spacing q := by
    rw [sub_mul, div_mul_cancel₀ q hunit.ne']
    rfl
  calc |rounded q - q|
      = |halfEven (q / 2 ^ spacing q) - q / 2 ^ spacing q| * 2 ^ spacing q := by
        rw [hq, abs_mul, abs_of_pos hunit]
    _ ≤ 1 / 2 * 2 ^ spacing q := mul_le_mul_of_nonneg_right (abs_halfEven_sub_le _) hunit.le
    _ = 2 ^ spacing q / 2 := one_div_mul_eq_div 2 _

/-- A number of fewer than 54 bits is a binary64 number already. -/
theorem rounded_eq_self {n e : Int} (hn : |n| < (2 : Int) ^ 53) (he : -1074 ≤ e) :
    rounded (n * 2 ^ e) = n * 2 ^ e := by
  have hpos (k : Int) : (0 : Rat) < 2 ^ k := zpow_pos two_pos k
  have hs : spacing (n * 2 ^ e) ≤ e := by
    unfold spacing
    split
    · exact he
    · next hq =>
      have habs : |(n : Rat) * 2 ^ e| < 2 ^ (53 + e) := by
        rw [abs_mul, abs_of_pos (hpos e), zpow_add₀ two_ne_zero]
        have hc : |(n : Rat)| < 2 ^ (53 : Int) := by exact_mod_cast hn
        exact mul_lt_mul_of_pos_right hc (hpos e)
      have := magnitude_lt hq habs
      omega
  obtain ⟨m, hm⟩ : ∃ m : Nat, e = m + spacing (n * 2 ^ e) :=
    ⟨(e - spacing (n * 2 ^ e)).toNat, by omega⟩
  have hunits : (n : Rat) * 2 ^ e / 2 ^ spacing (n * 2 ^ e) = ((n * 2 ^ m : Int) : Rat) := by
    rw [div_eq_iff (hpos _).ne', Int.cast_mul, Int.cast_pow, Int.cast_ofNat, mul_assoc,
      ← zpow_natCast, ← zpow_add₀ two_ne_zero, ← hm]
  rw [rounded, hunits, halfEven_intCast, ← hunits, div_mul_cancel₀ _ (hpos _).ne']

end Binary64

end Line21.Number
