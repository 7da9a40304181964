import Line21.Format.Basic

/-!
# Reading clocks

A padded number determines the number, and a clock the time that it shows, down to the
millisecond. Numbers are made of digits and minus signs alone, so the marks on a clock cannot be
mistaken for parts of its numbers.
-/

namespace Line21

namespace Text

/-- What stands before and behind the first place of a mark can be told apart. -/
theorem separated_inj {α : Type} {mark : α} {before before' behind behind' : List α}
    (hb : mark ∉ before) (hb' : mark ∉ before')
    (h : before ++ mark :: behind = before' ++ mark :: behind') :
    before = before' ∧ behind = behind' := by
  induction before generalizing before' with
  | nil =>
    cases before' with
    | nil => exact ⟨rfl, (List.cons.inj h).2⟩
    | cons x before' => exact absurd ((List.cons.inj h).1 ▸ List.mem_cons_self) hb'
  | cons x before ih =>
    cases before' with
    | nil => exact absurd ((List.cons.inj h).1 ▸ List.mem_cons_self) hb
    | cons x' before' =>
      obtain ⟨rfl, ht⟩ := List.cons.inj h
      obtain ⟨rfl, rfl⟩ :=
        ih (fun hm ↦ hb (List.mem_cons_of_mem x hm)) (fun hm ↦ hb' (List.mem_cons_of_mem x hm)) ht
      exact ⟨rfl, rfl⟩

/-- The characters that numbers are written in. -/
def isNumeral (x : Char) : Bool := x.isDigit || x == '-'

private theorem ofDigitChars_paddedNat (width n : Nat) :
    Nat.ofDigitChars 10 (paddedNat width n).toList 0 = n := by
  simp only [paddedNat, String.toList_append, String.toList_ofList, Nat.ofDigitChars_append,
    Nat.ofDigitChars_replicate_zero, Nat.mul_zero, Nat.toString_eq_ofList_toDigits,
    Nat.ofDigitChars_ten_toDigits]

/-- A number without a sign is padded with digits. -/
theorem isDigit_of_mem_paddedNat {width n : Nat} {x : Char}
    (h : x ∈ (paddedNat width n).toList) : x.isDigit = true := by
  simp only [paddedNat, String.toList_append, String.toList_ofList, List.mem_append,
    Nat.toString_eq_ofList_toDigits] at h
  rcases h with h | h
  · rw [List.eq_of_mem_replicate h]
    rfl
  · exact Nat.isDigit_of_mem_toDigits (by omega) (Nat.le_refl 10) h

/-- A minus sign stands in front of a negative number alone. -/
theorem toList_padded (width : Nat) (n : Int) :
    (padded width n).toList =
      if n < 0 then '-' :: (paddedNat (width - 1) n.natAbs).toList
      else (paddedNat width n.natAbs).toList := by
  rw [padded]
  split
  · rw [String.toList_append]
    rfl
  · rfl

/-- A padded number is made of digits and minus signs. -/
theorem isNumeral_of_mem_padded {width : Nat} {n : Int} {x : Char}
    (h : x ∈ (padded width n).toList) : isNumeral x = true := by
  rw [toList_padded] at h
  rw [isNumeral, Bool.or_eq_true]
  split at h
  · rcases List.mem_cons.mp h with rfl | h
    · exact .inr rfl
    · exact .inl (isDigit_of_mem_paddedNat h)
  · exact .inl (isDigit_of_mem_paddedNat h)

private theorem minus_not_mem_paddedNat (width n : Nat) : '-' ∉ (paddedNat width n).toList :=
  fun h ↦ nomatch isDigit_of_mem_paddedNat h

/-- Numbers that are padded alike are equal. -/
theorem padded_inj {width : Nat} {m n : Int}
    (h : (padded width m).toList = (padded width n).toList) : m = n := by
  have habs {width m n : Nat} (h : (paddedNat width m).toList = (paddedNat width n).toList) :
      m = n := by
    rw [← ofDigitChars_paddedNat width m, h, ofDigitChars_paddedNat]
  rw [toList_padded, toList_padded] at h
  split at h
  · split at h
    · have := habs (List.cons.inj h).2
      omega
    · exact absurd (h ▸ List.mem_cons_self) (minus_not_mem_paddedNat width n.natAbs)
  · split at h
    · exact absurd (h ▸ List.mem_cons_self) (minus_not_mem_paddedNat width m.natAbs)
    · have := habs h
      omega

end Text

namespace Format

open Text (padded isNumeral isNumeral_of_mem_padded padded_inj separated_inj)

/-- The characters of a clock: hours of a least width, and a mark before the milliseconds. -/
def clockChars (width : Nat) (mark : Char) (time : Int) : List Char :=
  let t := ClockTime.ofNanoseconds time
  (padded width t.hours).toList ++ ':' :: ((padded 2 t.minutes).toList ++
    ':' :: ((padded 2 t.seconds).toList ++ mark :: (padded 3 t.milliseconds).toList))

/-- The clock of WebVTT has a point. -/
theorem toList_webVttClock (time : Int) : (webVttClock time).toList = clockChars 2 '.' time := by
  simp [webVttClock, clockChars]

/-- The clock of SubRip has a comma. -/
theorem toList_subRipClock (width : Nat) (time : Int) :
    (subRipClock width time).toList = clockChars width ',' time := by
  simp [subRipClock, clockChars]

/-- Besides numbers a clock holds colons and its mark. -/
theorem not_mem_clockChars {x mark : Char} (hx : isNumeral x = false) (hc : x ≠ ':')
    (hm : x ≠ mark) (width : Nat) (time : Int) : x ∉ clockChars width mark time := by
  have hp (width : Nat) (n : Int) : x ∉ (padded width n).toList := by
    intro h
    rw [isNumeral_of_mem_padded h] at hx
    cases hx
  simp [clockChars, hp, hc, hm]

/-- Clocks that look alike show times of the same millisecond. -/
theorem millisecondsOf_eq_of_clockChars {width : Nat} {mark : Char}
    (hm : isNumeral mark = false) {time time' : Int}
    (h : clockChars width mark time = clockChars width mark time') :
    ClockTime.millisecondsOf time = ClockTime.millisecondsOf time' := by
  have hn {mark : Char} (hm : isNumeral mark = false) (width : Nat) (n : Int) :
      mark ∉ (padded width n).toList := by
    intro hx
    rw [isNumeral_of_mem_padded hx] at hm
    cases hm
  have hcolon : isNumeral ':' = false := by decide
  obtain ⟨hhours, h⟩ := separated_inj (hn hcolon _ _) (hn hcolon _ _) h
  obtain ⟨hminutes, h⟩ := separated_inj (hn hcolon _ _) (hn hcolon _ _) h
  obtain ⟨hseconds, hmilliseconds⟩ := separated_inj (hn hm _ _) (hn hm _ _) h
  rw [← ClockTime.toMilliseconds_ofNanoseconds, ← ClockTime.toMilliseconds_ofNanoseconds,
    ClockTime.toMilliseconds, ClockTime.toMilliseconds, padded_inj hhours, padded_inj hminutes,
    padded_inj hseconds, padded_inj hmilliseconds]

end Format

end Line21
