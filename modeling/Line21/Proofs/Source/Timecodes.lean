import Line21.Source.Basic
import Mathlib.Data.List.Lex

/-!
# Counting frames by timecodes

Timecodes in the order of time name one frame after the other. Where a count leaves frame numbers
out, what follows the last frame of a minute is the third number of the next, and no frame is lost.
Main statement: the next timecode names the next frame, so that timecodes and the numbers of frames
in the first hundred hours belong to each other one by one.
-/

namespace Line21

namespace Text

/-- A number below one hundred in two decimal digits. -/
def twoDigits (n : Nat) : List Char := [Nat.digitChar (n / 10), Nat.digitChar (n % 10)]

private theorem twoDigits?_digitChar {n : Nat} (h : n < 100) :
    twoDigits? (Nat.digitChar (n / 10)) (Nat.digitChar (n % 10)) = some n := by
  have : ∀ k : Fin 100,
      twoDigits? (Nat.digitChar (k.val / 10)) (Nat.digitChar (k.val % 10)) = some k.val := by
    decide +kernel
  exact this ⟨n, h⟩

private theorem digitChar_ne_newline {n : Nat} (h : n < 10) : Nat.digitChar n ≠ '\n' := by
  have : ∀ k : Fin 10, Nat.digitChar k.val ≠ '\n' := by decide
  exact this ⟨n, h⟩

end Text

namespace Timecode

/-- The fields of a timecode, the longest time first. Timecodes of one count are in the order of
time as their fields are in the order of words. -/
def fields (t : Timecode) : List Nat := [t.hours, t.minutes, t.seconds, t.frames]

/-- A timecode that names a frame: its fields are in range, and its frame number is not one of those
that a count with dropped frames leaves out. -/
structure Valid (t : Timecode) : Prop where
  hours : t.hours < 100
  minutes : t.minutes < 60
  seconds : t.seconds < 60
  frames : t.frames < 30
  kept : t.drops = true → t.minutes % 10 ≠ 0 → t.seconds = 0 → 2 ≤ t.frames

/-- A timecode in digits, with a mark before the frames. -/
def spell (mark : Char) (t : Timecode) : String :=
  String.ofList (Text.twoDigits t.hours ++ ':' :: (Text.twoDigits t.minutes ++
    ':' :: (Text.twoDigits t.seconds ++ mark :: Text.twoDigits t.frames)))

/-- How many frame numbers a count leaves out at the beginning of a minute. -/
def skipped (drops : Bool) (minute : Nat) : Nat := if drops ∧ minute % 10 ≠ 0 then 2 else 0

/-- The timecode that follows, when the numbers that are left out are passed by. -/
def next (t : Timecode) : Timecode :=
  if t.frames < 29 then { t with frames := t.frames + 1 }
  else if t.seconds < 59 then { t with seconds := t.seconds + 1, frames := 0 }
  else if t.minutes < 59 then
    { t with minutes := t.minutes + 1, seconds := 0, frames := skipped t.drops (t.minutes + 1) }
  else { t with hours := t.hours + 1, minutes := 0, seconds := 0, frames := 0 }

/-- How many frames have a timecode: those of one hundred hours, less two for each of the numbers of
minutes that ten does not divide where numbers are left out. -/
def total (drops : Bool) : Nat := 100 * 60 * 60 * 30 - if drops then 2 * (100 * 60 - 100 * 6) else 0

variable {t u : Timecode}

private theorem ofText_spell {mark : Char} (hmark : dropsOfMark? mark = some t.drops)
    (h : t.Valid) :
    ofText (t.spell mark) = .ok t := by
  have hlast : (t.spell mark).toList.getLast? ≠ some '\n' := by
    have hn := Text.digitChar_ne_newline (n := t.frames % 10) (by omega)
    simp [spell, Text.twoDigits, hn]
  have hread : ofChars? (t.spell mark).toList = some t := by
    have hh := Text.twoDigits?_digitChar h.hours
    have hm := Text.twoDigits?_digitChar (Nat.lt_trans h.minutes (by decide))
    have hs := Text.twoDigits?_digitChar (Nat.lt_trans h.seconds (by decide))
    have hf := Text.twoDigits?_digitChar (Nat.lt_trans h.frames (by decide))
    simp [spell, Text.twoDigits, ofChars?, hh, hm, hs, hf, hmark]
  rw [ofText, if_neg hlast, hread]

/-- Fields are in order as the first of them that differ. -/
theorem fields_lt_iff : t.fields < u.fields ↔
    t.hours < u.hours ∨ t.hours = u.hours ∧ (t.minutes < u.minutes ∨ t.minutes = u.minutes ∧
      (t.seconds < u.seconds ∨ t.seconds = u.seconds ∧ t.frames < u.frames)) := by
  simp [fields, List.cons_lt_cons_iff]

/-- Timecodes of one count with the same fields are the same. -/
theorem eq_of_fields_eq (hd : t.drops = u.drops) (h : t.fields = u.fields) : t = u := by
  cases t
  cases u
  simp_all [fields]

/-! ### Frames of a minute -/

/-- The number that the first frame of a minute had if none were left out in that minute. -/
def minuteStart (drops : Bool) (minute : Nat) : Nat :=
  1800 * minute - if drops then 2 * (minute - minute / 10) else 0

/-- A frame is counted from the start of its minute. -/
theorem frame_eq (t : Timecode) :
    t.frame = minuteStart t.drops t.totalMinutes + (30 * t.seconds + t.frames) := by
  unfold frame minuteStart
  dsimp only
  split
  · omega
  · omega

/-- A full hour does not count for what is left out. -/
theorem skipped_add (drops : Bool) (hours minute : Nat) :
    skipped drops (60 * hours + minute) = skipped drops minute := by
  have hten : (60 * hours + minute) % 10 = minute % 10 := by omega
  rw [skipped, skipped, hten]

/-- A minute starts eighteen hundred frames after the minute before, less those left out in it. -/
theorem minuteStart_succ (drops : Bool) (minute : Nat) :
    minuteStart drops (minute + 1) + skipped drops (minute + 1) =
      minuteStart drops minute + 1800 := by
  cases drops with
  | false =>
    simp only [minuteStart, skipped, Bool.false_eq_true, false_and, if_false]
    omega
  | true =>
    simp only [minuteStart, skipped, true_and, if_true]
    split
    · omega
    · omega

private theorem minuteStart_add_le (drops : Bool) {minute later : Nat} (h : minute < later) :
    minuteStart drops minute + 1800 ≤ minuteStart drops later + skipped drops later := by
  induction later with
  | zero => exact absurd h (Nat.not_lt_zero _)
  | succ later ih =>
    rw [minuteStart_succ]
    rcases Nat.lt_succ_iff_lt_or_eq.mp h with hlt | rfl
    · have hfew : skipped drops later ≤ 2 := by
        unfold skipped
        split <;> decide
      have := ih hlt
      omega
    · exact Nat.le_refl _

/-- A frame that is named lies in its minute, behind the numbers left out there. -/
theorem Valid.skipped_le (h : t.Valid) :
    skipped t.drops t.totalMinutes ≤ 30 * t.seconds + t.frames := by
  rw [totalMinutes, skipped_add, skipped]
  split
  · next hs =>
    have hk := h.kept hs.1 hs.2
    omega
  · exact Nat.zero_le _

/-- A later timecode names a later frame. -/
theorem frame_lt_of_fields_lt (ht : t.Valid) (hu : u.Valid) (hd : t.drops = u.drops)
    (h : t.fields < u.fields) : t.frame < u.frame := by
  obtain ⟨-, htm, hts, htf, -⟩ := ht
  have hum := hu.minutes
  rw [fields_lt_iff] at h
  rw [frame_eq, frame_eq, hd]
  by_cases hminute : t.totalMinutes < u.totalMinutes
  · have hstart := minuteStart_add_le u.drops hminute
    have hskipped := hu.skipped_le
    omega
  · have hsame : t.totalMinutes = u.totalMinutes := by
      unfold totalMinutes at hminute ⊢
      omega
    rw [hsame]
    unfold totalMinutes at hsame
    omega

/-- Timecodes of one count are in the order of their frames. -/
theorem frame_lt_frame_iff (ht : t.Valid) (hu : u.Valid) (hd : t.drops = u.drops) :
    t.frame < u.frame ↔ t.fields < u.fields := by
  constructor
  · intro h
    rcases lt_trichotomy t.fields u.fields with hlt | heq | hgt
    · exact hlt
    · rw [eq_of_fields_eq hd heq] at h
      exact absurd h (Nat.lt_irrefl _)
    · exact absurd h (Nat.lt_asymm (frame_lt_of_fields_lt hu ht hd.symm hgt))
  · exact frame_lt_of_fields_lt ht hu hd

private theorem eq_of_frame_eq (ht : t.Valid) (hu : u.Valid) (hd : t.drops = u.drops)
    (h : t.frame = u.frame) : t = u := by
  rcases lt_trichotomy t.fields u.fields with hlt | heq | hgt
  · exact absurd h (frame_lt_of_fields_lt ht hu hd hlt).ne
  · exact eq_of_fields_eq hd heq
  · exact absurd h (frame_lt_of_fields_lt hu ht hd.symm hgt).ne'

/-! ### The timecode that follows -/

/-- The next timecode belongs to the same count. -/
theorem drops_next (t : Timecode) : t.next.drops = t.drops := by
  unfold next
  split
  · rfl
  · split
    · rfl
    · split <;> rfl

private theorem fields_lt_fields_next (t : Timecode) : t.fields < t.next.fields := by
  rw [fields_lt_iff]
  unfold next
  split
  · dsimp only
    omega
  · split
    · dsimp only
      omega
    · split
      · dsimp only
        omega
      · dsimp only
        omega

/-- The next timecode names a frame, unless the hundred hours are over. -/
theorem Valid.next (h : t.Valid) (hlast : t.fields ≠ [99, 59, 59, 29]) : t.next.Valid := by
  obtain ⟨hh, hm, hs, hf, hk⟩ := h
  have hlast : ¬ (t.hours = 99 ∧ t.minutes = 59 ∧ t.seconds = 59 ∧ t.frames = 29) := by
    simpa [fields] using hlast
  unfold Timecode.next
  split
  · next hlt =>
    exact ⟨hh, hm, hs, Nat.succ_lt_succ hlt,
      fun hd hn hz ↦ Nat.le_trans (hk hd hn hz) (Nat.le_succ _)⟩
  · split
    · next hlt => exact ⟨hh, hm, Nat.succ_lt_succ hlt, Nat.zero_lt_succ _, nofun⟩
    · split
      · next hlt =>
        refine ⟨hh, Nat.succ_lt_succ hlt, Nat.zero_lt_succ _, ?_, fun hd hn _ ↦ ?_⟩
        · dsimp only [skipped]
          split <;> decide
        · exact Nat.le_of_eq (if_pos ⟨hd, hn⟩).symm
      · have hlt : t.hours + 1 < 100 := by omega
        exact ⟨hlt, Nat.zero_lt_succ _, Nat.zero_lt_succ _, Nat.zero_lt_succ _,
          fun _ hn _ ↦ absurd rfl hn⟩

/-- The next timecode names the next frame. -/
theorem frame_next (h : t.Valid) : t.next.frame = t.frame + 1 := by
  obtain ⟨-, hm, hs, hf, -⟩ := h
  have hstart := minuteStart_succ t.drops t.totalMinutes
  rw [frame_eq, frame_eq, drops_next]
  unfold next
  split
  · exact rfl
  · split
    · dsimp only [totalMinutes]
      omega
    · split
      · -- The next minute starts with the first number that is not left out.
        have hskipped := skipped_add t.drops t.hours (t.minutes + 1)
        dsimp only [totalMinutes] at hstart ⊢
        rw [Nat.add_assoc, hskipped] at hstart
        omega
      · -- In the first minute of an hour no number is left out.
        have hskipped : skipped t.drops (60 * (t.hours + 1) + 0) = 0 :=
          (skipped_add t.drops (t.hours + 1) 0).trans (if_neg fun h ↦ h.2 rfl)
        have hhour : 60 * t.hours + t.minutes + 1 = 60 * (t.hours + 1) + 0 := by omega
        dsimp only [totalMinutes] at hstart ⊢
        rw [hhour, hskipped] at hstart
        omega

/-! ### All timecodes of a count -/

/-- The first timecode of a count. -/
def start (drops : Bool) : Timecode := ⟨0, 0, 0, 0, drops⟩

/-- The last timecode of a count. -/
def final (drops : Bool) : Timecode := ⟨99, 59, 59, 29, drops⟩

/-- The first timecode names a frame. -/
theorem valid_start (drops : Bool) : (start drops).Valid := by
  constructor <;> simp [start]

private theorem valid_final (drops : Bool) : (final drops).Valid := by
  constructor <;> simp [final]

/-- The last timecode names the last frame. -/
theorem frame_final (drops : Bool) : (final drops).frame + 1 = total drops := by
  cases drops <;> rfl

private theorem frame_lt_total (h : t.Valid) : t.frame < total t.drops := by
  have hle : t.frame ≤ (final t.drops).frame := by
    by_contra hlt
    have hf := (frame_lt_frame_iff (valid_final t.drops) h rfl).mp (Nat.lt_of_not_le hlt)
    obtain ⟨hh, hm, hs, hf', -⟩ := h
    rw [fields_lt_iff] at hf
    dsimp only [final] at hf
    omega
  have := frame_final t.drops
  omega

/-- Every frame of the hundred hours has a timecode. -/
theorem exists_frame_eq {drops : Bool} {n : Nat} (h : n < total drops) :
    ∃ t : Timecode, t.Valid ∧ t.drops = drops ∧ t.frame = n := by
  induction n with
  | zero => exact ⟨start drops, valid_start drops, rfl, by cases drops <;> rfl⟩
  | succ n ih =>
    obtain ⟨t, ht, rfl, rfl⟩ := ih (Nat.lt_of_succ_lt h)
    have hlast : t.fields ≠ [99, 59, 59, 29] := by
      intro hl
      have hfinal : t = final t.drops := eq_of_fields_eq rfl hl
      have := frame_final t.drops
      rw [← hfinal] at this
      omega
    exact ⟨t.next, ht.next hlast, t.drops_next, frame_next ht⟩

/-- A timecode that names a frame is read as it was written, whatever mark tells of its count. The
first one has the number zero. Every one but the last of the hundred hours is followed by a next
one, which names the next frame. So the frames are in the order of their timecodes, no two timecodes
name the same, and the frames named are those below the total of the hundred hours. -/
theorem counts_frames_one_by_one {mark : Char} {drops : Bool}
    (hmark : dropsOfMark? mark = some drops) :
    let Names (t : Timecode) : Prop := t.Valid ∧ t.drops = drops
    (∀ t, Names t → ofText (t.spell mark) = .ok t) ∧
      (Names ⟨0, 0, 0, 0, drops⟩ ∧ (⟨0, 0, 0, 0, drops⟩ : Timecode).frame = 0) ∧
      (∀ t, Names t → t.fields ≠ [99, 59, 59, 29] →
        ∃ t', Names t' ∧ t.fields < t'.fields ∧
          (∀ u, Names u → t.fields < u.fields → u = t' ∨ t'.fields < u.fields) ∧
          t'.frame = t.frame + 1) ∧
      (∀ t u, Names t → Names u → (t.frame < u.frame ↔ t.fields < u.fields) ∧
        (t.frame = u.frame → t = u)) ∧
      ∀ n, (∃ t, Names t ∧ t.frame = n) ↔ n < total drops := by
  intro Names
  refine ⟨?_, ⟨⟨valid_start drops, rfl⟩, by cases drops <;> rfl⟩, ?_, ?_, ?_⟩
  · rintro t ⟨ht, rfl⟩
    exact ofText_spell hmark ht
  · rintro t ⟨ht, rfl⟩ hlast
    have hnext : t.next.Valid := ht.next hlast
    refine ⟨t.next, ⟨hnext, t.drops_next⟩, t.fields_lt_fields_next, ?_, frame_next ht⟩
    rintro u ⟨hu, hd⟩ hlt
    have hframe := frame_lt_of_fields_lt ht hu hd.symm hlt
    have hnumber := frame_next ht
    have hcount : t.next.drops = u.drops := t.drops_next.trans hd.symm
    rcases Nat.eq_or_lt_of_le (Nat.succ_le_of_lt hframe) with he | hl
    · exact .inl (eq_of_frame_eq hu hnext hcount.symm (by omega))
    · exact .inr ((frame_lt_frame_iff hnext hu hcount).mp (by omega))
  · rintro t u ⟨ht, hd⟩ ⟨hu, hd'⟩
    have hcount : t.drops = u.drops := hd.trans hd'.symm
    exact ⟨frame_lt_frame_iff ht hu hcount, eq_of_frame_eq ht hu hcount⟩
  · intro n
    constructor
    · rintro ⟨t, ⟨ht, rfl⟩, rfl⟩
      exact frame_lt_total ht
    · intro hn
      obtain ⟨t, ht, hd, hf⟩ := exists_frame_eq hn
      exact ⟨t, ⟨ht, hd⟩, hf⟩

/-- The last timecode of the first minute is followed by the third number of the second minute, in a
count that leaves numbers out. -/
theorem counts_frames_one_by_one_into_minute :
    let t : Timecode := ⟨0, 0, 59, 29, true⟩
    let u : Timecode := ⟨0, 1, 0, 2, true⟩
    dropsOfMark? ';' = some true ∧ t.Valid ∧ u.Valid ∧
      ofText "00:00:59;29" = .ok t ∧ ofText "00:01:00;02" = .ok u ∧
      t.frame = 1799 ∧ u.frame = 1800 ∧
      ∀ v, v.Valid ∧ v.drops = true → t.fields < v.fields → v = u ∨ u.fields < v.fields := by
  intro t u
  have ht : t.Valid := by constructor <;> decide
  have hu : u.Valid := by constructor <;> decide
  have hmark : dropsOfMark? ';' = some true := rfl
  have htext : t.spell ';' = "00:00:59;29" := by decide +kernel
  have hutext : u.spell ';' = "00:01:00;02" := by decide +kernel
  have htframe : t.frame = 1799 := by decide
  have huframe : u.frame = 1800 := by decide
  obtain ⟨hread, -, hnext, horder, -⟩ := counts_frames_one_by_one hmark
  obtain ⟨t', ht', -, hfirst, hframe⟩ := hnext t ⟨ht, rfl⟩ (by decide)
  rw [htframe] at hframe
  have hsame : u = t' := (horder u t' ⟨hu, rfl⟩ ht').2 (huframe.trans hframe.symm)
  exact ⟨hmark, ht, hu, htext ▸ hread t ⟨ht, rfl⟩, hutext ▸ hread u ⟨hu, rfl⟩, htframe, huframe,
    fun v hv hlt ↦ hsame ▸ hfirst v hv hlt⟩

end Timecode

end Line21
