import Line21.Number.Binary64
import Mathlib.Algebra.Order.Field.Power
import Mathlib.Data.Rat.Floor
import Mathlib.Tactic.Linarith
import Mathlib.Tactic.NormNum

/-!
# The range of binary64 numbers

Rounding to an integer never passes an integer, and reaches an even one from half a unit away.
Main statements: a rational has no nearest binary64 number exactly when it lies as far from zero as
the middle between the greatest of these numbers and `2 ^ 1024`, and the nearest number never lies
past a power of two that the rational does not pass.
-/

namespace Line21.Number

/-! ### Rounding to an integer -/

variable {q : Rat} {n : Int}

/-- Rounding does not pass an integer from below. -/
theorem halfEven_le (h : q ≤ n) : halfEven q ≤ n := by
  rcases lt_or_eq_of_le h with hlt | rfl
  · have hf : q.floor < n := Rat.floor_lt_iff.mpr hlt
    rcases halfEven_eq_or q with he | he
    · omega
    · omega
  · exact le_of_eq (halfEven_intCast n)

/-- Rounding does not pass an integer from above. -/
theorem le_halfEven (h : n ≤ q) : n ≤ halfEven q := by
  have hf : n ≤ q.floor := Rat.le_floor_iff.mpr h
  rcases halfEven_eq_or q with he | he
  · omega
  · omega

private theorem halfEven_le_iff (hn : n % 2 = 0) : halfEven q ≤ n ↔ q ≤ n + 1 / 2 := by
  have hlow := Rat.floor_le q
  have hhigh := Rat.lt_floor_add_one q
  rw [Int.cast_add, Int.cast_one] at hhigh
  simp only [halfEven]
  generalize q.floor = low at *
  rcases lt_trichotomy low n with h | rfl | h
  · have hc : (low : Rat) + 1 ≤ n := by exact_mod_cast h
    refine iff_of_true ?_ (by linarith)
    split_ifs <;> omega
  · rw [if_pos hn]
    split_ifs with h₁ h₂
    · exact iff_of_true le_rfl (by linarith)
    · exact iff_of_false (by omega) (by linarith)
    · exact iff_of_true le_rfl (by linarith)
  · have hc : (n : Rat) + 1 ≤ low := by exact_mod_cast h
    refine iff_of_false ?_ (by linarith)
    split_ifs <;> omega

private theorem le_halfEven_iff (hn : n % 2 = 0) : n ≤ halfEven q ↔ n - 1 / 2 ≤ q := by
  have hlow := Rat.floor_le q
  have hhigh := Rat.lt_floor_add_one q
  rw [Int.cast_add, Int.cast_one] at hhigh
  simp only [halfEven]
  generalize q.floor = low at *
  rcases lt_trichotomy (low + 1) n with h | rfl | h
  · have hc : (low : Rat) + 1 + 1 ≤ n := by exact_mod_cast h
    refine iff_of_false ?_ (by linarith)
    split_ifs <;> omega
  · have hodd : ¬ low % 2 = 0 := by omega
    rw [if_neg hodd, Int.cast_add, Int.cast_one]
    split_ifs with h₁ h₂
    · exact iff_of_false (by omega) (by linarith)
    · exact iff_of_true le_rfl (by linarith)
    · exact iff_of_true le_rfl (by linarith)
  · have hc : (n : Rat) ≤ low := by exact_mod_cast (by omega : n ≤ low)
    refine iff_of_true ?_ (by linarith)
    split_ifs <;> omega

/-- Rounding stays between an integer and its opposite. -/
theorem abs_halfEven_le (h : |q| ≤ n) : |halfEven q| ≤ n := by
  obtain ⟨hl, hu⟩ := abs_le.mp h
  refine abs_le.mpr ⟨le_halfEven ?_, halfEven_le hu⟩
  rwa [Int.cast_neg]

private theorem le_abs_halfEven (h : n ≤ |q|) : n ≤ |halfEven q| := by
  rcases le_abs.mp h with h | h
  · exact le_abs.mpr (.inl (le_halfEven h))
  · refine le_abs.mpr (.inr ?_)
    have hq : q ≤ (-n : Int) := by rw [Int.cast_neg]; linarith
    have := halfEven_le hq
    omega

private theorem abs_halfEven_lt_iff (hn : n % 2 = 0) : |halfEven q| < n ↔ |q| < n - 1 / 2 := by
  have hneg : -n % 2 = 0 := by omega
  have hl : -n < halfEven q ↔ -(n - 1 / 2 : Rat) < q := by
    rw [← not_le, halfEven_le_iff hneg, not_le, Int.cast_neg, neg_sub, sub_eq_neg_add]
  have hu : halfEven q < n ↔ q < n - 1 / 2 := by rw [← not_le, le_halfEven_iff hn, not_le]
  rw [abs_lt, abs_lt, hl, hu]

namespace Binary64

/-! ### Magnitudes -/

/-- The absolute value of a rational is that of an ordered field. -/
theorem abs_eq (q : Rat) : q.abs = |q| := by
  rcases le_total 0 q with h | h
  · rw [Rat.abs_of_nonneg h, abs_of_nonneg h]
  · rw [Rat.abs_of_nonpos h, abs_of_nonpos h]

private theorem abs_between {q : Rat} (h : q ≠ 0) :
    (2 : Rat) ^ ((q.num.natAbs.log2 : Int) - q.den.log2 - 1) ≤ |q| ∧
      |q| < (2 : Rat) ^ ((q.num.natAbs.log2 : Int) - q.den.log2 + 1) := by
  have hq : |q| = (q.num.natAbs : Rat) / q.den := by
    rw [Rat.abs_def, Rat.divInt_eq_div]
    rfl
  have hnum : q.num.natAbs ≠ 0 := Int.natAbs_ne_zero.mpr (Rat.num_ne_zero.mpr h)
  have hn : (2 : Rat) ^ q.num.natAbs.log2 ≤ q.num.natAbs := by
    exact_mod_cast Nat.log2_self_le hnum
  have hn' : (q.num.natAbs : Rat) < 2 ^ (q.num.natAbs.log2 + 1) := by
    exact_mod_cast Nat.lt_log2_self
  have hd : (2 : Rat) ^ q.den.log2 ≤ q.den := by exact_mod_cast Nat.log2_self_le q.den_nz
  have hd' : (q.den : Rat) < 2 ^ (q.den.log2 + 1) := by exact_mod_cast Nat.lt_log2_self
  have hpos : (0 : Rat) < q.den := by exact_mod_cast q.den_pos
  have hlow : (2 : Rat) ^ ((q.num.natAbs.log2 : Int) - q.den.log2 - 1) =
      2 ^ q.num.natAbs.log2 / 2 ^ (q.den.log2 + 1) := by
    rw [sub_sub, zpow_sub₀ two_ne_zero]
    norm_cast
  have hhigh : (2 : Rat) ^ ((q.num.natAbs.log2 : Int) - q.den.log2 + 1) =
      2 ^ (q.num.natAbs.log2 + 1) / 2 ^ q.den.log2 := by
    rw [sub_add_eq_add_sub, zpow_sub₀ two_ne_zero]
    norm_cast
  rw [hq, hlow, hhigh]
  constructor
  · gcongr
  · gcongr

/-- The magnitude is the exponent of a power of two that a rational reaches. -/
theorem two_zpow_magnitude_le {q : Rat} (h : q ≠ 0) : (2 : Rat) ^ magnitude q ≤ |q| := by
  simp only [magnitude, abs_eq]
  split
  · next hle => exact hle
  · exact (abs_between h).1

private theorem lt_two_zpow_magnitude {q : Rat} (h : q ≠ 0) :
    |q| < (2 : Rat) ^ (magnitude q + 1) := by
  simp only [magnitude, abs_eq]
  split
  · exact (abs_between h).2
  · next hlt =>
    rw [sub_add_cancel]
    exact not_le.mp hlt

/-- A rational that stays short of a power of two has a smaller magnitude. -/
theorem magnitude_lt {q : Rat} (h : q ≠ 0) {k : Int} (hk : |q| < (2 : Rat) ^ k) :
    magnitude q < k :=
  (zpow_lt_zpow_iff_right₀ one_lt_two).mp ((two_zpow_magnitude_le h).trans_lt hk)

/-- A rational that reaches a power of two has its magnitude at least. -/
theorem le_magnitude {q : Rat} (h : q ≠ 0) {k : Int} (hk : (2 : Rat) ^ k ≤ |q|) :
    k ≤ magnitude q :=
  Int.lt_add_one_iff.mp
    ((zpow_lt_zpow_iff_right₀ one_lt_two).mp (hk.trans_lt (lt_two_zpow_magnitude h)))

/-! ### Rounding to a binary64 number -/

private theorem two_zpow_pos (e : Int) : (0 : Rat) < 2 ^ e := zpow_pos two_pos e

private theorem abs_div_spacing (q : Rat) :
    |q / (2 : Rat) ^ spacing q| = |q| / 2 ^ spacing q := by
  rw [abs_div, abs_of_pos (two_zpow_pos _)]

/-- Rounding in units of the spacing. -/
theorem abs_rounded (q : Rat) :
    |rounded q| = |(halfEven (q / 2 ^ spacing q) : Rat)| * 2 ^ spacing q := by
  rw [rounded, abs_mul, abs_of_pos (two_zpow_pos _)]

/-- The nearest binary64 number is the rounded rational, while that stays short of `2 ^ 1024`. -/
theorem nearest?_eq (q : Rat) :
    nearest? q = if |rounded q| < 2 ^ 1024 then some (rounded q) else none := by
  have hlimit : (2 : Rat) ^ (1024 : Int) = 2 ^ 1024 := zpow_ofNat 2 1024
  simp only [nearest?, abs_eq, hlimit]

/-- There is a nearest binary64 number when the rounded rational stays short of `2 ^ 1024`. -/
theorem nearest?_eq_some_iff {q r : Rat} :
    nearest? q = some r ↔ rounded q = r ∧ |r| < 2 ^ 1024 := by
  rw [nearest?_eq]
  constructor
  · intro h
    split at h
    · next hlt =>
      obtain rfl := Option.some.inj h
      exact ⟨rfl, hlt⟩
    · cases h
  · rintro ⟨rfl, hlt⟩
    exact if_pos hlt

/-- The spacing around a rational short of a power of two is that of the numbers before it. -/
theorem spacing_le {q : Rat} {k : Int} (hk : -1021 ≤ k) (h : |q| < (2 : Rat) ^ k) :
    spacing q ≤ k - 53 := by
  unfold spacing
  split
  · omega
  · next hq =>
    have := magnitude_lt hq h
    omega

private theorem spacing_eq {q : Rat} (hq : q ≠ 0) (h : -1022 ≤ magnitude q) :
    spacing q = magnitude q - 52 := by
  rw [spacing, if_neg hq]
  omega

private theorem spacing_le_of_abs_le {q : Rat} {k : Int} (hk : -1074 ≤ k)
    (h : |q| ≤ (2 : Rat) ^ k) :
    spacing q ≤ k := by
  unfold spacing
  split
  · exact hk
  · next hq =>
    have hm := (zpow_le_zpow_iff_right₀ (one_lt_two : (1 : Rat) < 2)).mp
      ((two_zpow_magnitude_le hq).trans h)
    omega

/-- Rounding does not pass a power of two above a rational. -/
theorem abs_rounded_le {q : Rat} {k : Int} (hk : -1074 ≤ k) (h : |q| ≤ (2 : Rat) ^ k) :
    |rounded q| ≤ 2 ^ k := by
  have hs := spacing_le_of_abs_le hk h
  obtain ⟨n, hn⟩ : ∃ n : Nat, k = n + spacing q := ⟨(k - spacing q).toNat, by omega⟩
  have hpower : (2 : Rat) ^ k = 2 ^ n * 2 ^ spacing q := by
    rw [hn, zpow_add₀ two_ne_zero, zpow_natCast]
  have hq : |q / (2 : Rat) ^ spacing q| ≤ ((2 ^ n : Int) : Rat) := by
    rw [abs_div_spacing, div_le_iff₀ (two_zpow_pos _), Int.cast_pow, Int.cast_ofNat, ← hpower]
    exact h
  have hh : (|halfEven (q / 2 ^ spacing q)| : Rat) ≤ 2 ^ n := by
    exact_mod_cast abs_halfEven_le hq
  rw [abs_rounded, hpower]
  exact mul_le_mul_of_nonneg_right hh (two_zpow_pos _).le

/-- Rounding stays at or past a power of two that a rational reaches. -/
theorem le_abs_rounded {q : Rat} {k : Int} (hk : -1074 ≤ k) (h : (2 : Rat) ^ k ≤ |q|) :
    2 ^ k ≤ |rounded q| := by
  have hq : q ≠ 0 := abs_pos.mp ((two_zpow_pos _).trans_le h)
  have hm : k ≤ magnitude q := le_magnitude hq h
  have hs : spacing q ≤ magnitude q := by
    rw [spacing, if_neg hq]
    omega
  obtain ⟨n, hn⟩ : ∃ n : Nat, magnitude q = n + spacing q :=
    ⟨(magnitude q - spacing q).toNat, by omega⟩
  have hpower : (2 : Rat) ^ magnitude q = 2 ^ n * 2 ^ spacing q := by
    rw [hn, zpow_add₀ two_ne_zero, zpow_natCast]
  have hreach : ((2 ^ n : Int) : Rat) ≤ |q / (2 : Rat) ^ spacing q| := by
    rw [abs_div_spacing, le_div_iff₀ (two_zpow_pos _), Int.cast_pow, Int.cast_ofNat, ← hpower]
    exact two_zpow_magnitude_le hq
  have hh : (2 ^ n : Rat) ≤ |(halfEven (q / 2 ^ spacing q) : Rat)| := by
    exact_mod_cast le_abs_halfEven hreach
  calc (2 : Rat) ^ k ≤ 2 ^ magnitude q := (zpow_le_zpow_iff_right₀ one_lt_two).mpr hm
    _ = 2 ^ n * 2 ^ spacing q := hpower
    _ ≤ |rounded q| := by
      rw [abs_rounded]
      exact mul_le_mul_of_nonneg_right hh (two_zpow_pos _).le

private theorem rounded_lt_iff {q : Rat} (hlow : (2 : Rat) ^ (1023 : Int) ≤ |q|)
    (hhigh : |q| < (2 : Rat) ^ (1024 : Int)) :
    |rounded q| < 2 ^ 1024 ↔ |q| < 2 ^ 1024 - 2 ^ 970 := by
  have hq : q ≠ 0 := abs_pos.mp ((two_zpow_pos _).trans_le hlow)
  have hm : magnitude q = 1023 := by
    have := le_magnitude hq hlow
    have := magnitude_lt hq hhigh
    omega
  have hs : spacing q = 971 := by rw [spacing_eq hq (by omega), hm]; rfl
  have hunit : (2 : Rat) ^ 1024 = 2 ^ 53 * 2 ^ spacing q := by
    rw [hs, zpow_ofNat, ← pow_add]
  have heven : ((2 : Int) ^ 53) % 2 = 0 := by decide
  have hhalf (x : Rat) : 1 / 2 * (x * 2) = x := by ring
  have hmiddle : (((2 ^ 53 : Int) : Rat) - 1 / 2) * 2 ^ spacing q = 2 ^ 1024 - 2 ^ 970 := by
    rw [sub_mul, Int.cast_pow, Int.cast_ofNat, ← hunit, hs, zpow_ofNat, pow_succ (2 : Rat) 970,
      hhalf]
  calc |rounded q| < 2 ^ 1024
      ↔ (|halfEven (q / 2 ^ spacing q)| : Rat) < 2 ^ 53 := by
        rw [abs_rounded, hunit, mul_lt_mul_iff_left₀ (two_zpow_pos _)]
    _ ↔ |halfEven (q / 2 ^ spacing q)| < 2 ^ 53 := by exact_mod_cast Iff.rfl
    _ ↔ |q| / 2 ^ spacing q < ((2 ^ 53 : Int) : Rat) - 1 / 2 := by
        rw [abs_halfEven_lt_iff heven, abs_div_spacing]
    _ ↔ |q| < 2 ^ 1024 - 2 ^ 970 := by rw [div_lt_iff₀ (two_zpow_pos _), hmiddle]

private theorem two_pow_lt_limit : (2 : Rat) ^ 1023 < 2 ^ 1024 - 2 ^ 970 := by
  rw [lt_sub_iff_add_lt, pow_succ (2 : Rat) 1023, mul_two]
  exact add_lt_add_right (pow_lt_pow_right₀ one_lt_two (by decide)) _

/-- A rational has no nearest binary64 number when it lies as far from zero as the middle between
the greatest one and `2 ^ 1024`, and else it has one. -/
theorem nearest?_eq_none_iff (q : Rat) :
    nearest? q = none ↔ (2 : Rat) ^ 1024 - 2 ^ 970 ≤ |q| := by
  have hlimit : (2 : Rat) ^ (1024 : Int) = 2 ^ 1024 := zpow_ofNat 2 1024
  have hhalf : (2 : Rat) ^ (1023 : Int) = 2 ^ 1023 := zpow_ofNat 2 1023
  have hbelow : (2 : Rat) ^ 1023 < 2 ^ 1024 := pow_lt_pow_right₀ one_lt_two (by decide)
  rw [nearest?_eq, ite_eq_right_iff, imp_iff_not (Option.some_ne_none _), ← not_lt, not_iff_not]
  rcases lt_or_ge |q| ((2 : Rat) ^ (1023 : Int)) with hlow | hlow
  · have hr := abs_rounded_le (by omega) hlow.le
    rw [hhalf] at hlow hr
    exact iff_of_true (hr.trans_lt hbelow) (hlow.trans two_pow_lt_limit)
  · rcases lt_or_ge |q| ((2 : Rat) ^ (1024 : Int)) with hhigh | hhigh
    · exact rounded_lt_iff hlow hhigh
    · have hr := le_abs_rounded (by omega) hhigh
      rw [hlimit] at hhigh hr
      exact iff_of_false (not_lt.mpr hr)
        (not_lt.mpr ((sub_le_self _ (pow_nonneg zero_le_two 970)).trans hhigh))

private theorem abs_le_of_nearest?_eq_some {q r : Rat} (hr : nearest? q = some r) {k : Int}
    (hk : -1074 ≤ k) (h : |q| ≤ (2 : Rat) ^ k) : |r| ≤ 2 ^ k := by
  obtain ⟨rfl, -⟩ := nearest?_eq_some_iff.mp hr
  exact abs_rounded_le hk h

/-- A rational that passes no power of two below the limit has a nearest binary64 number, which
passes it neither. -/
theorem exists_nearest? {q : Rat} {k : Nat} (hk : k ≤ 1023) (h : |q| ≤ (2 : Rat) ^ k) :
    ∃ r, nearest? q = some r ∧ |r| ≤ 2 ^ k := by
  have hlimit : |q| < 2 ^ 1024 - 2 ^ 970 :=
    (h.trans (pow_le_pow_right₀ one_le_two hk)).trans_lt two_pow_lt_limit
  obtain ⟨r, hr⟩ : ∃ r, nearest? q = some r :=
    Option.ne_none_iff_exists'.mp fun hn ↦ not_le.mpr hlimit ((nearest?_eq_none_iff q).mp hn)
  rw [← zpow_natCast] at h ⊢
  exact ⟨r, hr, abs_le_of_nearest?_eq_some hr (by omega) h⟩

end Binary64

end Line21.Number
