import Line21.Proofs.Source.Files

/-!
# Raw pairs and their frames

Cutting bytes into twos loses none of them, and may start anew behind any even number of bytes. Main
statement: reading gives one unit for each piece, stamped with the frames from the first on, as far
as those have stamps.
-/

namespace Line21.RawPairs

open Number (NumberError)

/-! ### Pieces -/

/-- The pieces hold all bytes in order. -/
theorem flatten_cut (bytes : List UInt8) : (cut bytes).flatten = bytes := by
  match bytes with
  | [] => rfl
  | [b] => rfl
  | a :: b :: rest => rw [cut_cons_cons, List.flatten_cons, flatten_cut rest]; rfl

/-- There is a piece for every two bytes, and one for a byte that is left. -/
theorem length_cut (bytes : List UInt8) : (cut bytes).length = (bytes.length + 1) / 2 := by
  match bytes with
  | [] => rfl
  | [b] => simp
  | a :: b :: rest =>
    rw [cut_cons_cons, List.length_cons, length_cut rest, List.length_cons, List.length_cons]
    omega

/-- Only the last piece may be a single byte. -/
theorem length_of_mem_dropLast_cut {bytes piece : List UInt8} (h : piece ∈ (cut bytes).dropLast) :
    piece.length = 2 := by
  match bytes with
  | [] => cases h
  | [b] => cases h
  | a :: b :: rest =>
    rw [cut_cons_cons] at h
    cases hr : cut rest with
    | nil =>
      rw [hr] at h
      cases h
    | cons next pieces =>
      rw [hr, List.dropLast_cons_cons, ← hr] at h
      rcases List.mem_cons.mp h with rfl | h
      · rfl
      · exact length_of_mem_dropLast_cut h

/-- Behind an even number of bytes cutting starts anew. -/
theorem cut_append {front : List UInt8} (h : front.length % 2 = 0) (back : List UInt8) :
    cut (front ++ back) = cut front ++ cut back := by
  match front with
  | [] => rfl
  | [b] => cases h
  | a :: b :: rest =>
    have hrest : rest.length % 2 = 0 := by
      rw [List.length_cons, List.length_cons] at h
      omega
    rw [List.cons_append, List.cons_append, cut_cons_cons, cut_append hrest back, cut_cons_cons]
    rfl

/-! ### Frames -/

variable {rate : FrameRate}

/-- Units are stamped with frames that follow each other, from a first one on. -/
def StampedFrom (rate : FrameRate) (first : Nat) (units : List CaptionUnit) : Prop :=
  ∀ n u, units[n]? = some u →
    ∃ time, rate.stamp ((first + n : Nat) : Int) = .ok time ∧ u.time = some time

/-- No units are stamped from any frame on. -/
theorem stampedFrom_nil (rate : FrameRate) (first : Nat) : StampedFrom rate first [] := by
  intro n u h
  rw [List.getElem?_nil] at h
  cases h

/-- Behind the unit of the first frame come those from the next frame on. -/
theorem stampedFrom_cons {first : Nat} {u : CaptionUnit} {units : List CaptionUnit} :
    StampedFrom rate first (u :: units) ↔
      (∃ time, rate.stamp first = .ok time ∧ u.time = some time) ∧
        StampedFrom rate (first + 1) units := by
  constructor
  · intro h
    refine ⟨h 0 u rfl, fun n v hv ↦ ?_⟩
    have := h (n + 1) v hv
    rwa [← Nat.add_assoc, Nat.add_right_comm] at this
  · rintro ⟨hu, h⟩ n v hv
    cases n with
    | zero =>
      obtain rfl : u = v := Option.some.inj hv
      exact hu
    | succ n =>
      have := h n v hv
      rwa [Nat.add_right_comm, Nat.add_assoc] at this

/-- Behind the units of some frames come those from the frame after them on. -/
theorem stampedFrom_append {first : Nat} {us vs : List CaptionUnit} :
    StampedFrom rate first (us ++ vs) ↔
      StampedFrom rate first us ∧ StampedFrom rate (first + us.length) vs := by
  induction us generalizing first with
  | nil =>
    rw [List.nil_append]
    exact (and_iff_right (stampedFrom_nil rate first)).symm
  | cons u us ih =>
    rw [List.cons_append, stampedFrom_cons, stampedFrom_cons, ih, and_assoc, List.length_cons,
      Nat.add_assoc, Nat.add_comm 1]

/-- The unit of a piece, stamped with a frame. -/
def stamped (rate : FrameRate) (piece : List UInt8 × Nat) : Except NumberError CaptionUnit :=
  (rate.stamp piece.2).map fun time ↦ ⟨piece.1, some time⟩

/-- A unit holds its piece, and its time is the stamp of its frame. -/
theorem stamped_eq_ok_iff {data : List UInt8} {frame : Nat} {u : CaptionUnit} :
    stamped rate (data, frame) = .ok u ↔
      u.data = data ∧ ∃ time, rate.stamp frame = .ok time ∧ u.time = some time := by
  obtain ⟨data', time'⟩ := u
  rw [stamped]
  cases rate.stamp frame with
  | error e => simp [Except.map]
  | ok time => simp [Except.map, eq_comm]

private theorem forall₂_stamped_iff {pieces : List (List UInt8)} {first : Nat}
    {units : List CaptionUnit} :
    List.Forall₂ (fun piece u ↦ stamped rate piece = .ok u) (pieces.zipIdx first) units ↔
      units.map (·.data) = pieces ∧ StampedFrom rate first units := by
  induction pieces generalizing first units with
  | nil =>
    rw [List.zipIdx_nil, List.forall₂_nil_left_iff, List.map_eq_nil_iff]
    refine ⟨?_, And.left⟩
    rintro rfl
    exact ⟨rfl, stampedFrom_nil rate first⟩
  | cons piece pieces ih =>
    rw [List.zipIdx_cons]
    cases units with
    | nil => exact ⟨nofun, nofun⟩
    | cons u units =>
      rw [List.forall₂_cons, ih, stamped_eq_ok_iff, List.map_cons, List.cons.injEq,
        stampedFrom_cons]
      exact and_and_and_comm

/-- A file is read as its pieces, stamped with the frames from the first on. -/
theorem read_eq_ok_iff {bytes : List UInt8} {units : List CaptionUnit} :
    read rate bytes = .ok units ↔ units.map (·.data) = cut bytes ∧ StampedFrom rate 0 units := by
  have hread : read rate bytes = (cut bytes).zipIdx.mapM (stamped rate) := rfl
  rw [hread, mapM_eq_ok_iff, forall₂_stamped_iff]

/-- A file is read if each frame that begins before its end has a stamp. -/
theorem exists_read_of_stamps {bytes : List UInt8}
    (h : ∀ n : Nat, 2 * n < bytes.length → ∃ time, rate.stamp n = .ok time) :
    ∃ units, read rate bytes = .ok units := by
  have hpiece : ∀ piece ∈ (cut bytes).zipIdx, ∃ u, stamped rate piece = .ok u ∧ True := by
    rintro ⟨data, n⟩ hm
    have hn := List.snd_lt_of_mem_zipIdx hm
    rw [length_cut] at hn
    obtain ⟨time, ht⟩ := h n (by dsimp only at hn; omega)
    exact ⟨⟨data, some time⟩, stamped_eq_ok_iff.mpr ⟨rfl, time, ht, rfl⟩, trivial⟩
  obtain ⟨units, hu, -⟩ := exists_mapM hpiece
  exact ⟨units, hu⟩

end Line21.RawPairs
