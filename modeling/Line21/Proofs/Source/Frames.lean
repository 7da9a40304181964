import Line21.Proofs.Number.Nearest
import Line21.Proofs.Source.RawPairs
import Line21.Source.Basic

/-!
# The stamps of frames

A stamp comes of a quotient that is rounded to a binary64 number and then to an integer. Main
statements: a later frame never has an earlier stamp, at whatever rate, and at the standard rate all
frames that timecodes name, and about as many again, have the stamp nearest to their exact time.
-/

namespace Line21

open Number
open Number.Binary64 (rounded rounded_mono rounded_eq_self abs_rounded_sub_le spacing_le)

private theorem Timecode.frame_le_of_ofText {text : String} {t : Timecode}
    (h : ofText text = .ok t) :
    t.frame ≤ 10873269 := by
  have hchars : ∃ cs, ofChars? cs = some t := by
    unfold ofText at h
    dsimp only at h
    split at h
    · next t' ht =>
      obtain rfl := Except.ok.inj h
      exact ⟨_, ht⟩
    · cases h
  obtain ⟨cs, hcs⟩ := hchars
  obtain ⟨hh, hm, hs, hf⟩ := lt_of_ofChars? hcs
  simp only [frame, totalMinutes]
  split <;> omega

namespace FrameRate

variable {rate : FrameRate} {frame time : Int}

/-- A rate as a rational. -/
def toRat : FrameRate → Rat
  | .binary perSecond => perSecond
  | .whole perSecond => perSecond

/-! ### The order of stamps -/

/-- Later frames have greater quotients. -/
theorem quotient_mono (hr : 0 < rate.toRat) {frame' : Int} (h : frame ≤ frame') :
    rate.quotient frame ≤ rate.quotient frame' := by
  have hn : (frame : Rat) * nanosecondsPerSecond ≤ frame' * nanosecondsPerSecond :=
    mul_le_mul_of_nonneg_right (Int.cast_le.mpr h) (Nat.cast_nonneg _)
  cases rate with
  | binary perSecond => exact div_le_div_of_nonneg_right (rounded_mono hn) hr.le
  | whole perSecond => exact div_le_div_of_nonneg_right hn hr.le

/-- Later frames do not have earlier stamps. -/
theorem stamp_mono (hr : 0 < rate.toRat) {frame' time' : Int} (h : frame ≤ frame')
    (ht : rate.stamp frame = .ok time) (ht' : rate.stamp frame' = .ok time') : time ≤ time' := by
  obtain ⟨-, rfl⟩ := stamp_eq_ok ht
  obtain ⟨-, rfl⟩ := stamp_eq_ok ht'
  exact halfEven_mono (rounded_mono (quotient_mono hr h))

private theorem exists_times_of_stampedFrom (hr : 0 < rate.toRat) {first : Nat}
    {units : List CaptionUnit} (h : RawPairs.StampedFrom rate first units) :
    ∃ times : List Int, units.map (·.time) = times.map some ∧ times.Pairwise (· ≤ ·) ∧
      ∀ time ∈ times, ∃ n : Nat, first ≤ n ∧ rate.stamp n = .ok time := by
  induction units generalizing first with
  | nil => exact ⟨[], rfl, .nil, nofun⟩
  | cons u units ih =>
    obtain ⟨⟨time, hs, ht⟩, hrest⟩ := RawPairs.stampedFrom_cons.mp h
    obtain ⟨times, hmap, hsorted, hstamps⟩ := ih hrest
    refine ⟨time :: times, ?_, List.pairwise_cons.mpr ⟨?_, hsorted⟩, ?_⟩
    · rw [List.map_cons, List.map_cons, ht, hmap]
    · intro time' hm
      obtain ⟨n, hn, hs'⟩ := hstamps time' hm
      exact stamp_mono hr (by omega) hs hs'
    · rintro time' hm
      rcases List.mem_cons.mp hm with rfl | hm
      · exact ⟨first, Nat.le_refl _, hs⟩
      · obtain ⟨n, hn, hs'⟩ := hstamps time' hm
        exact ⟨n, by omega, hs'⟩

/-- Stamps never run backwards, whether the rate is a binary64 number or an integer: of two frames
that have stamps, whatever their numbers, the later one has no earlier stamp. So all units that are
read of a file of raw pairs have times, and the times never decrease. -/
theorem stamps_never_run_backwards (hr : 0 < rate.toRat) :
    (∀ f g s t : Int, f ≤ g → rate.stamp f = .ok s → rate.stamp g = .ok t → s ≤ t) ∧
      ∀ (bytes : List UInt8) (units : List CaptionUnit), RawPairs.read rate bytes = .ok units →
        ∃ times : List Int, units.map (·.time) = times.map some ∧ times.Pairwise (· ≤ ·) := by
  refine ⟨fun f g s t ↦ stamp_mono hr, fun bytes units h ↦ ?_⟩
  obtain ⟨times, hmap, hsorted, -⟩ :=
    exists_times_of_stampedFrom hr (RawPairs.read_eq_ok_iff.mp h).2
  exact ⟨times, hmap, hsorted⟩

/-- With a frame in every nanosecond there are more frames than binary64 numbers past `2 ^ 53`, and
stamps coincide there. -/
theorem stamps_never_run_backwards_past_precision :
    let rate : FrameRate := .whole 1000000000
    let units : List CaptionUnit := [⟨[0x94, 0x20], some 0⟩, ⟨[0x80], some 1⟩]
    0 < rate.toRat ∧ rate.stamp (2 ^ 53) = .ok (2 ^ 53) ∧ rate.stamp (2 ^ 53 + 1) = .ok (2 ^ 53) ∧
      (2 : Int) ^ 53 ≤ 2 ^ 53 ∧ RawPairs.read rate [0x94, 0x20, 0x80] = .ok units ∧
      ∃ times : List Int, units.map (·.time) = times.map some ∧ times.Pairwise (· ≤ ·) := by
  intro rate units
  have hr : 0 < rate.toRat := by decide +kernel
  have hs : rate.stamp (2 ^ 53) = .ok (2 ^ 53) := by decide +kernel
  have ht : rate.stamp (2 ^ 53 + 1) = .ok (2 ^ 53) := by decide +kernel
  have hread : RawPairs.read rate [0x94, 0x20, 0x80] = .ok units := by decide +kernel
  obtain ⟨hstamps, hunits⟩ := stamps_never_run_backwards hr
  exact ⟨hr, hs, ht, hstamps _ _ _ _ (by decide) hs ht, hread, hunits _ _ hread⟩

/-! ### Exact stamps at the standard rate -/

private theorem abs_sub_third_le {m t : Int} (h : |(t : Rat) - m / 3| < 2 / 3) :
    |(t : Rat) - m / 3| ≤ 1 / 3 := by
  have hthirds : (t : Rat) - m / 3 = ((3 * t - m : Int) : Rat) / 3 := by
    push_cast
    ring
  rw [hthirds, abs_div, abs_of_pos (three_pos : (0 : Rat) < 3)] at h ⊢
  have hlt : |3 * t - m| < 2 := by
    exact_mod_cast (div_lt_div_iff_of_pos_right three_pos).mp h
  have hle : |((3 * t - m : Int) : Rat)| ≤ 1 := by exact_mod_cast Int.lt_add_one_iff.mp hlt
  exact (div_le_div_iff_of_pos_right three_pos).mpr hle

private theorem abs_halfEven_sub_lt {q : Rat} {m n : Int} (h : |q - m / 3| < 1 / 6)
    (hn : n ≠ halfEven q) : |(halfEven q : Rat) - m / 3| < |(n : Rat) - m / 3| := by
  have hhalf := abs_halfEven_sub_le q
  generalize halfEven q = t at *
  have hthird : |(t : Rat) - m / 3| ≤ 1 / 3 := by
    refine abs_sub_third_le ?_
    calc |(t : Rat) - m / 3| = |(t - q) + (q - m / 3)| := by rw [sub_add_sub_cancel]
      _ ≤ |t - q| + |q - m / 3| := abs_add_le _ _
      _ < 2 / 3 := by linarith only [hhalf, h]
  have hapart : (1 : Rat) ≤ |(n : Rat) - t| := by
    exact_mod_cast Int.one_le_abs (sub_ne_zero.mpr hn)
  have hfar := abs_sub_abs_le_abs_sub ((n : Rat) - t) (m / 3 - t)
  rw [sub_sub_sub_cancel_right, abs_sub_comm (m / 3 : Rat)] at hfar
  linarith only [hthird, hapart, hfar]

/-- The time of a frame in nanoseconds at thirty frames in 1.001 seconds. -/
def exactTime (frame : Int) : Rat := frame * (1001 * nanosecondsPerSecond) / 30000

/-- An exact time is a third of an integer. -/
theorem exactTime_eq (frame : Int) : exactTime frame = ((frame * 100100000 : Int) : Rat) / 3 := by
  rw [exactTime, nanosecondsPerSecond]
  push_cast
  ring

/-- The nanoseconds of as many frames are a binary64 number, and the rate is so close to the exact
one that the quotient is off by little. -/
theorem abs_quotient_standard_sub_le (h : |frame| ≤ 2 * 10 ^ 7) :
    |standard.quotient frame - exactTime frame| ≤ 1 / 80 := by
  have hfive : |frame * 5 ^ 9| < (2 : Int) ^ 53 := by
    rw [abs_mul, abs_of_pos (by decide : (0 : Int) < 5 ^ 9)]
    omega
  have hexact :
      (frame : Rat) * nanosecondsPerSecond = ((frame * 5 ^ 9 : Int) : Rat) * 2 ^ (9 : Int) := by
    rw [nanosecondsPerSecond]
    push_cast
    ring
  have hquotient : standard.quotient frame - exactTime frame =
      frame * (10 ^ 9 * 19 / (30000 * 1054476685978981)) := by
    simp only [quotient, standard]
    rw [hexact, rounded_eq_self hfive (by decide), exactTime, nanosecondsPerSecond]
    push_cast
    ring
  have hframe : |(frame : Rat)| ≤ 2 * 10 ^ 7 := by exact_mod_cast h
  rw [hquotient, abs_mul]
  calc |(frame : Rat)| * |(10 ^ 9 * 19 / (30000 * 1054476685978981) : Rat)|
      ≤ 2 * 10 ^ 7 * |(10 ^ 9 * 19 / (30000 * 1054476685978981) : Rat)| :=
        mul_le_mul_of_nonneg_right hframe (abs_nonneg _)
    _ ≤ 1 / 80 := by
      rw [abs_of_pos (by norm_num)]
      norm_num

private theorem abs_exactTime_le (h : |frame| ≤ 2 * 10 ^ 7) : |exactTime frame| ≤ 2 ^ 50 - 1 := by
  have hframe : |(frame : Rat)| ≤ 2 * 10 ^ 7 := by exact_mod_cast h
  have hfactor : exactTime frame = frame * (100100000 / 3) := by
    rw [exactTime_eq]
    push_cast
    ring
  rw [hfactor, abs_mul, abs_of_pos (by norm_num : (0 : Rat) < 100100000 / 3)]
  linarith only [hframe]

private theorem two_zpow_spacing_standard_le (h : |frame| ≤ 2 * 10 ^ 7) :
    (2 : Rat) ^ Binary64.spacing (standard.quotient frame) ≤ 1 / 8 := by
  have hclose := abs_quotient_standard_sub_le h
  have htime := abs_exactTime_le h
  have hsize : |standard.quotient frame| < (2 : Rat) ^ (50 : Int) := by
    have hdiff := abs_sub_abs_le_abs_sub (standard.quotient frame) (exactTime frame)
    rw [zpow_ofNat]
    linarith only [hclose, htime, hdiff]
  have hs := spacing_le (by decide) hsize
  calc (2 : Rat) ^ Binary64.spacing (standard.quotient frame) ≤ 2 ^ (-3 : Int) :=
        (zpow_le_zpow_iff_right₀ one_lt_two).mpr hs
    _ = 1 / 8 := by norm_num

private theorem abs_rounded_quotient_standard_sub_lt (h : |frame| ≤ 2 * 10 ^ 7) :
    |rounded (standard.quotient frame) - exactTime frame| < 1 / 6 := by
  have hclose := abs_quotient_standard_sub_le h
  have hunit := two_zpow_spacing_standard_le h
  have hround := abs_rounded_sub_le (standard.quotient frame)
  calc |rounded (standard.quotient frame) - exactTime frame|
      = |(rounded (standard.quotient frame) - standard.quotient frame) +
          (standard.quotient frame - exactTime frame)| := by rw [sub_add_sub_cancel]
    _ ≤ |rounded (standard.quotient frame) - standard.quotient frame| +
          |standard.quotient frame - exactTime frame| := abs_add_le _ _
    _ < 1 / 6 := by linarith only [hclose, hunit, hround]

/-- At the standard rate, which is the binary64 number nearest to 30000/1001 frames in a second,
the stamp of every frame up to the number of twenty millions, before zero or after, is the integer
that is nearest to the exact time of the frame. No timecode names a frame beyond those. -/
theorem stamps_nearest_exact_time :
    ofQuotient 30000 1001 = .ok standard ∧
      (∀ {text : String} {t : Timecode}, Timecode.ofText text = .ok t → t.frame ≤ 10873269) ∧
      ∀ frame : Int, |frame| ≤ 2 * 10 ^ 7 →
        ∃ time, standard.stamp frame = .ok time ∧
          ∀ n : Int, n ≠ time → |time - exactTime frame| < |n - exactTime frame| := by
  refine ⟨ofQuotient_standard, Timecode.frame_le_of_ofText, fun frame h ↦ ?_⟩
  have hnumber : frame.natAbs ≤ 2 ^ 65 := by
    rw [Int.abs_eq_natAbs] at h
    omega
  obtain ⟨time, hs, -⟩ := exists_stamp_standard hnumber
  obtain ⟨-, rfl⟩ := stamp_eq_ok hs
  have hclose := abs_rounded_quotient_standard_sub_lt h
  refine ⟨_, hs, fun n hn ↦ ?_⟩
  rw [exactTime_eq] at hclose ⊢
  exact abs_halfEven_sub_lt hclose hn

/-- The last timecode of all that can be read, and a frame as far before zero as may be, whose exact
time is a third of a nanosecond before its stamp. -/
theorem stamps_nearest_exact_time_at_ends :
    Timecode.ofText "99:99:99:99" = .ok ⟨99, 99, 99, 99, false⟩ ∧
      (⟨99, 99, 99, 99, false⟩ : Timecode).frame ≤ 10873269 ∧
      standard.stamp 10873269 = .ok 362804742300000 ∧
      standard.stamp (-20000000) = .ok (-667333333333333) ∧
      |(-667333333333333 : Int) - exactTime (-20000000)| <
        |(-667333333333334 : Int) - exactTime (-20000000)| := by
  have htext : Timecode.ofText "99:99:99:99" = .ok ⟨99, 99, 99, 99, false⟩ := by decide +kernel
  have hstamp : standard.stamp (-20000000) = .ok (-667333333333333) := by decide +kernel
  obtain ⟨-, hcode, hnearest⟩ := stamps_nearest_exact_time
  obtain ⟨time, hs, hlt⟩ := hnearest (-20000000) (by decide)
  obtain rfl := Except.ok.inj (hs.symm.trans hstamp)
  exact ⟨htext, hcode htext, by decide +kernel, hstamp, hlt _ (by decide)⟩

end FrameRate

end Line21
