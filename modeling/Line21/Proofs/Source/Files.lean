import Line21.Proofs.Source.Stamps
import Line21.Proofs.Stream.Noise
import Line21.Source.Kind

/-!
# Reading caption files

A file holds no more lines, words and pairs than bytes, so its frames have no enormous numbers.
Main statements: a file of fewer than `2 ^ 64` bytes is always read as raw pairs, and as an SCC file
if its first line that is not blank is the header, and is refused for that alone if not. Every unit
that is read has a time in range.
-/

namespace Line21

/-! ### Lengths of texts -/

namespace Text

variable {cs l w : List Char}

private theorem length_splitOnP_le (kind : Char → Bool) (cs : List Char) :
    (cs.splitOnP kind).length ≤ cs.length + 1 := by
  induction cs with
  | nil => exact Nat.le_refl 1
  | cons c cs ih =>
    rw [List.splitOnP_cons_eq_if_modifyHead, List.length_cons]
    split
    · rw [List.length_cons]
      omega
    · rw [List.length_modifyHead]
      omega

private theorem length_le_of_mem_splitOnP {kind : Char → Bool} (h : l ∈ cs.splitOnP kind) :
    l.length ≤ cs.length := by
  induction cs generalizing l with
  | nil =>
    obtain rfl := List.mem_singleton.mp h
    exact Nat.le_refl 0
  | cons c cs ih =>
    rw [List.splitOnP_cons_eq_if_modifyHead] at h
    rw [List.length_cons]
    split at h
    · rcases List.mem_cons.mp h with rfl | h
      · exact Nat.zero_le _
      · exact Nat.le_succ_of_le (ih h)
    · cases hp : cs.splitOnP kind with
      | nil =>
        rw [hp] at h
        cases h
      | cons first rest =>
        rw [hp, List.modifyHead_cons] at h
        rw [hp] at ih
        rcases List.mem_cons.mp h with rfl | h
        · exact Nat.succ_le_succ (ih List.mem_cons_self)
        · exact Nat.le_succ_of_le (ih (List.mem_cons_of_mem _ h))

private theorem length_trim_le (cs : List Char) : (trim cs).length ≤ cs.length := by
  rw [trim, trimBy, List.length_reverse]
  refine (List.dropWhile_sublist _).length_le.trans ?_
  rw [List.length_reverse]
  exact (List.dropWhile_sublist _).length_le

private theorem length_le_of_mem_lines (h : l ∈ lines cs) : l.length ≤ cs.length := by
  obtain ⟨piece, hp, rfl⟩ := List.mem_map.mp (List.mem_filter.mp h).1
  exact (length_trim_le piece).trans (length_le_of_mem_splitOnP hp)

private theorem length_words_le (cs : List Char) : (words cs).length ≤ cs.length + 1 :=
  (List.length_filter_le _ _).trans (length_splitOnP_le isBlank cs)

namespace Utf8

/-- The characters of a reading, that one included that is begun. -/
def Reading.size (r : Reading) : Nat := r.text.length + if r.begun.isSome then 1 else 0

private theorem Reading.size_first_le (text : String) (b : UInt8) :
    (first text b).size ≤ text.length + 1 := by
  unfold first
  split
  · simp [size]
  · split <;> simp [size]

private theorem Reading.size_step_le (r : Reading) (b : UInt8) : (r.step b).size ≤ r.size + 1 := by
  unfold step
  split
  · next hb =>
    refine (size_first_le _ b).trans ?_
    rw [size, hb]
    simp
  · next g hb =>
    have hr : r.size = r.text.length + 1 := by
      rw [size, hb]
      rfl
    rw [hr]
    split
    · dsimp only
      split
      · simp [size]
      · simp [size]
    · refine (size_first_le _ b).trans ?_
      rw [String.length_push]

private theorem length_decode_le (bytes : List UInt8) : (decode bytes).length ≤ bytes.length := by
  have hfold (r : Reading) : (bytes.foldl Reading.step r).size ≤ r.size + bytes.length := by
    induction bytes generalizing r with
    | nil => exact Nat.le_refl _
    | cons b bytes ih =>
      have := ih (r.step b)
      have := r.size_step_le b
      rw [List.foldl_cons, List.length_cons]
      omega
  have hfinish (r : Reading) : r.finish.length = r.size := by
    unfold Reading.finish Reading.size
    split
    · next hb => simp [hb]
    · next hb => simp [hb]
  have := hfold {}
  rw [decode, hfinish]
  simpa [Reading.size] using this

private theorem length_dropMark_le (bytes : List UInt8) :
    (dropMark bytes).length ≤ bytes.length := by
  unfold dropMark
  split
  · simp only [List.length_cons]
    omega
  · exact Nat.le_refl _

end Utf8

end Text

/-! ### Steps that may fail -/

/-- Items are all read when each one is, and what holds of each result holds of all. -/
theorem exists_mapM {α β ε : Type} {f : α → Except ε β} {P : β → Prop} {xs : List α}
    (h : ∀ x ∈ xs, ∃ y, f x = .ok y ∧ P y) : ∃ ys, xs.mapM f = .ok ys ∧ ∀ y ∈ ys, P y := by
  induction xs with
  | nil => exact ⟨[], List.mapM_nil, List.forall_mem_nil _⟩
  | cons x xs ih =>
    obtain ⟨y, hy, hp⟩ := h x List.mem_cons_self
    obtain ⟨ys, hys, hps⟩ := ih fun x hx ↦ h x (List.mem_cons_of_mem _ hx)
    refine ⟨y :: ys, ?_, List.forall_mem_cons.mpr ⟨hp, hps⟩⟩
    rw [List.mapM_cons, hy, hys]
    rfl

/-- A step succeeds when both of its parts do. -/
theorem bind_eq_ok_iff {α β ε : Type} {x : Except ε α} {f : α → Except ε β} {b : β} :
    x >>= f = .ok b ↔ ∃ a, x = .ok a ∧ f a = .ok b := by
  cases x with
  | error e => exact ⟨nofun, nofun⟩
  | ok a =>
    constructor
    · exact fun h ↦ ⟨a, rfl, h⟩
    · rintro ⟨_, ⟨⟩, h⟩
      exact h

/-- Items are read one by one. -/
theorem mapM_eq_ok_iff {α β ε : Type} {f : α → Except ε β} {xs : List α} {ys : List β} :
    xs.mapM f = .ok ys ↔ List.Forall₂ (fun x y ↦ f x = .ok y) xs ys := by
  induction xs generalizing ys with
  | nil => cases ys <;> simp [pure, Except.pure]
  | cons x xs ih =>
    simp only [List.mapM_cons, List.forall₂_cons_left_iff, bind_eq_ok_iff, ih]
    constructor
    · rintro ⟨y, hy, ys', hys, h⟩
      exact ⟨y, ys', hy, hys, (Except.ok.inj h).symm⟩
    · rintro ⟨y, ys', hy, hys, rfl⟩
      exact ⟨y, hy, ys', hys, rfl⟩

/-! ### Units with times in range -/

namespace RawPairs

private theorem length_cut_le (bytes : List UInt8) : (cut bytes).length ≤ bytes.length := by
  match bytes with
  | [] => exact Nat.le_refl 0
  | [b] => exact Nat.le_refl 1
  | a :: b :: rest =>
    have := length_cut_le rest
    rw [cut_cons_cons, List.length_cons, List.length_cons, List.length_cons]
    omega

private theorem exists_read {bytes : List UInt8} (h : bytes.length < 2 ^ 64) :
    ∃ us, read .standard bytes = .ok us ∧ ∀ u ∈ us, u.IsTimed := by
  refine exists_mapM fun (data, frame) hm ↦ ?_
  have hframe := List.snd_lt_of_mem_zipIdx hm
  have hcut := length_cut_le bytes
  have hnumber : (frame : Int).natAbs ≤ 2 ^ 65 := by
    rw [Int.natAbs_natCast]
    dsimp only at hframe
    omega
  obtain ⟨time, hs, hr⟩ := FrameRate.exists_stamp_standard hnumber
  refine ⟨⟨data, some time⟩, ?_, time, rfl, hr⟩
  simp only [hs]
  rfl

end RawPairs

namespace Scc

variable {bytes : List UInt8}

/-- The first line of a file that is not blank, without the blanks at its ends. -/
def firstLine? (bytes : List UInt8) : Option (List Char) :=
  ((Text.Utf8.decode (Text.Utf8.dropMark bytes)).toList.splitOnP Text.isLineEnd).map Text.trim
    |>.find? (!·.isEmpty)

/-- The first line of a file that is not blank is the header. -/
def IsHeaded (bytes : List UInt8) : Prop := firstLine? bytes = some sccHeader.toList

instance (bytes : List UInt8) : Decidable (IsHeaded bytes) := inferInstanceAs (Decidable (_ = _))

private theorem frame_lt_of_mem_pairsOfLine {line : List Char} (h : line.length < 2 ^ 64)
    {data : List UInt8} {frame : Nat} (hm : (data, frame) ∈ pairsOfLine line) :
    frame < 2 ^ 65 := by
  have hwords := Text.length_words_le line
  unfold pairsOfLine at hm
  split at hm
  · cases hm
  · next code words hw =>
    rw [hw, List.length_cons] at hwords
    split at hm
    · cases hm
    · next timecode ht =>
      obtain ⟨⟨word, i⟩, hi, he⟩ := List.mem_filterMap.mp hm
      obtain ⟨bytes, -, hb⟩ := Option.map_eq_some_iff.mp he
      obtain rfl : timecode.frame + i = frame := congrArg Prod.snd hb
      have hindex := List.snd_lt_of_mem_zipIdx hi
      -- A timecode has two digits in each place, so the words of the line are what counts.
      have hcode : timecode.frame ≤ 2 ^ 24 := by
        obtain ⟨hh, hm, hs, hf⟩ := Timecode.lt_of_ofChars? ht
        simp only [Timecode.frame, Timecode.totalMinutes]
        split <;> omega
      dsimp only at hindex
      omega

private theorem pairsOfLines_of_head?_ne (lines : List (List Char))
    (h : lines.head? ≠ some sccHeader.toList) : pairsOfLines lines = .error .missingHeader := by
  cases lines with
  | nil => rfl
  | cons first rest =>
    rw [pairsOfLines, if_neg]
    rintro he
    rw [List.head?_cons, ← he, String.toList_ofList] at h
    exact h rfl

private theorem pairsOfLines_of_head?_eq (lines : List (List Char))
    (h : lines.head? = some sccHeader.toList) :
    pairsOfLines lines = .ok (lines.tail.flatMap pairsOfLine) := by
  cases lines with
  | nil => cases h
  | cons first rest =>
    obtain rfl := Option.some.inj h
    rw [pairsOfLines, String.ofList_toList, if_pos rfl]
    rfl

private theorem read_of_not_isHeaded (h : ¬ IsHeaded bytes) :
    read bytes = .error .missingHeader := by
  have hp := pairsOfLines_of_head?_ne (Text.lines _) (List.head?_filter.trans_ne h)
  rw [read, hp]
  rfl

/-- A file with the header in front is read, with times in range. -/
theorem exists_read_of_isHeaded (hl : bytes.length < 2 ^ 64) (h : IsHeaded bytes) :
    ∃ us, read bytes = .ok us ∧ ∀ u ∈ us, u.IsTimed := by
  have hp := pairsOfLines_of_head?_eq (Text.lines _) (List.head?_filter.trans h)
  rw [read, hp]
  refine exists_mapM fun (data, frame) hm ↦ ?_
  obtain ⟨line, hline, hm⟩ := List.mem_flatMap.mp hm
  have hlength := Text.length_le_of_mem_lines (List.mem_of_mem_tail hline)
  have hbytes := (Text.Utf8.length_decode_le _).trans (Text.Utf8.length_dropMark_le bytes)
  rw [String.length_toList] at hlength
  have hframe := frame_lt_of_mem_pairsOfLine (by omega) hm
  have hnumber : (frame : Int).natAbs ≤ 2 ^ 65 := by
    rw [Int.natAbs_natCast]
    exact hframe.le
  obtain ⟨time, hs, hr⟩ := FrameRate.exists_stamp_standard hnumber
  refine ⟨⟨data, some time⟩, ?_, time, rfl, hr⟩
  show stamped data frame = _
  rw [stamped, hs]
  rfl

end Scc

namespace SourceKind

variable {kind : SourceKind} {bytes : List UInt8}

/-- A file is read, with times in range, unless it is an SCC file without the header in front. -/
theorem exists_read (hl : bytes.length < 2 ^ 64) (h : kind = .scc → Scc.IsHeaded bytes) :
    ∃ us, kind.read bytes = .ok us ∧ ∀ u ∈ us, u.IsTimed := by
  cases kind with
  | scc => exact Scc.exists_read_of_isHeaded hl (h rfl)
  | rawPairs =>
    obtain ⟨us, hus, ht⟩ := RawPairs.exists_read hl
    refine ⟨us, ?_, ht⟩
    rw [read, hus]
    rfl

/-- A missing header is the one reason why a file is not read. -/
theorem read_eq_error_iff (hl : bytes.length < 2 ^ 64) {e : ReadError} :
    kind.read bytes = .error e ↔ (kind = .scc ∧ ¬ Scc.IsHeaded bytes) ∧ e = .missingHeader := by
  by_cases h : kind = .scc → Scc.IsHeaded bytes
  · obtain ⟨us, hus, -⟩ := exists_read hl h
    rw [hus, ← Classical.not_imp]
    exact ⟨nofun, fun hn ↦ absurd h hn.1⟩
  · obtain ⟨rfl, hheaded⟩ := Classical.not_imp.mp h
    rw [read, Scc.read_of_not_isHeaded hheaded, Except.error.injEq, eq_comm]
    exact ⟨fun he ↦ ⟨⟨rfl, hheaded⟩, he⟩, And.right⟩

end SourceKind

end Line21
