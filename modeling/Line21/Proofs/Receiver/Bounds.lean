import Line21.Proofs.Receiver.Hearing
import Line21.Proofs.Receiver.Reached

/-!
# No pair leads out of bounds

A bare receiver stops at a place that is not there. Main statement: whatever it is fed, it never
comes to such a place. Its memories remain screens of characters that can be written, its cursor
remains on them, and it stops at nothing but a pair without its parity.
-/

namespace Line21

/-- A memory is a screen of characters that can be written. -/
structure Grid.InBounds (grid : Grid) : Prop where
  rows : grid.length = 15
  columns : ∀ cells ∈ grid, cells.length = 32
  chars : ∀ cells ∈ grid, ∀ x, some x ∈ cells → x ∈ Charset.repertoire

/-- The memories of a bare receiver are screens, its cursor is on them, and a window in which
captions roll up has two to four rows. -/
structure Bare.InBounds (b : Bare) : Prop where
  shown : Grid.InBounds b.shown
  hidden : Grid.InBounds b.hidden
  row : 0 ≤ b.row ∧ b.row ≤ 14
  column : 0 ≤ b.column ∧ b.column ≤ 31
  depth : b.depth = 0 ∨ b.depth = 2 ∨ b.depth = 3 ∨ b.depth = 4

private theorem Memory.Holds.inBounds_grid {m : Memory} (h : m.Holds (· ∈ Charset.repertoire)) :
    m.grid.InBounds := by
  have hrow {cells : List (Option Char)} (hc : cells ∈ m.grid) :
      ∃ row, cells = (m.row row).toList := by
    obtain ⟨row, hr, rfl⟩ := List.mem_map.mp hc
    obtain ⟨i, hi, rfl⟩ := Vector.mem_iff_getElem.mp (Vector.mem_toList_iff.mp hr)
    exact ⟨⟨i, hi⟩, rfl⟩
  refine ⟨m.length_grid, fun cells hc ↦ ?_, fun cells hc x hx ↦ ?_⟩
  · obtain ⟨row, rfl⟩ := hrow hc
    exact Vector.length_toList
  · obtain ⟨row, rfl⟩ := hrow hc
    obtain ⟨column, hlt, he⟩ := Vector.mem_iff_getElem.mp (Vector.mem_toList_iff.mp hx)
    exact h row ⟨column, hlt⟩ x he

namespace Receiver

variable {r : Receiver}

/-- In a receiver that can come about, all characters can be written. -/
theorem Reachable.holds (h : r.Reachable) : r.Holds (· ∈ Charset.repertoire) := by
  induction h with
  | fresh => exact holds_fresh
  | receive h hr ih => exact ih.receive hr

/-- A receiver that can come about is in bounds. -/
theorem Reachable.inBounds_bare (h : r.Reachable) : r.bare.InBounds where
  shown := h.holds.shown.inBounds_grid
  hidden := h.holds.hidden.inBounds_grid
  row := ⟨Int.natCast_nonneg _, Int.ofNat_le.mpr (Nat.le_of_lt_succ r.row.isLt)⟩
  column := ⟨Int.natCast_nonneg _, Int.ofNat_le.mpr (Nat.le_of_lt_succ r.column.isLt)⟩
  depth := by
    have hd : r.bare.depth = (r.window.elim 0 Depth.rows : Nat) := rfl
    rw [hd]
    cases r.window with
    | none => decide
    | some depth => cases depth <;> decide

/-- A receiver that has heard nothing has a fresh bare form. -/
theorem bare_fresh : fresh.bare = .fresh := by
  have hm : fresh.bare =
      { Bare.fresh with shown := Memory.empty.grid, hidden := Memory.empty.grid } := rfl
  rw [hm, Memory.grid_empty]
  rfl

/-- What a bare receiver is fed leads to the bare form of a receiver that can come about. -/
theorem Reachable.exists_feed (h : r.Reachable) (f : Feed) :
    ∃ r' : Receiver, r'.Reachable ∧ r.bare.feed f = r'.bare := by
  cases f with
  | reset => exact ⟨Receiver.fresh, .fresh, bare_fresh.symm⟩
  | pair p =>
    rw [Bare.feed, r.receive_bare p]
    cases hr : r.receive p with
    | ok result => exact ⟨result.1, h.receive hr, rfl⟩
    | error e => exact ⟨r, h, rfl⟩

end Receiver

namespace Bare

private theorem exists_feeds (feeds : List Feed) :
    ∃ r : Receiver, r.Reachable ∧ feeds.foldl feed fresh = r.bare := by
  have hrun {r : Receiver} (h : r.Reachable) :
      ∃ r' : Receiver, r'.Reachable ∧ feeds.foldl feed r.bare = r'.bare := by
    induction feeds generalizing r with
    | nil => exact ⟨r, h, rfl⟩
    | cons f feeds ih =>
      obtain ⟨r₁, h₁, he⟩ := h.exists_feed f
      rw [List.foldl_cons, he]
      exact ih h₁
  rw [← Receiver.bare_fresh]
  exact hrun .fresh

/-- Whatever a bare receiver is fed, it is in bounds and the bare form of a receiver that can come
about. The next pair stops it if and only if a byte of the pair has even parity, which changes
nothing; any other pair does to it what it does to the receiver, and no place that is looked up or
replaced on the way lies outside of its list. -/
theorem stops_only_at_parity (feeds : List Feed) :
    ∃ r : Receiver, r.Reachable ∧ feeds.foldl feed fresh = r.bare ∧ r.bare.InBounds ∧
      ∀ p : BytePair,
        if hasOddParity p.first ∧ hasOddParity p.second then
          ∃ r' moment, r.receive p = .ok (r', moment) ∧ receive p.toNat r.bare = .ok moment r'.bare
        else
          r.receive p = .error ⟨p⟩ ∧ receive p.toNat r.bare = .error (.parity p.toNat) r.bare := by
  obtain ⟨r, h, hf⟩ := exists_feeds feeds
  refine ⟨r, h, hf, h.inBounds_bare, fun p ↦ ?_⟩
  have hb := r.receive_bare p
  have hp : p.parityHolds = true ↔ hasOddParity p.first = true ∧ hasOddParity p.second = true :=
    Bool.and_eq_true_iff
  split
  · next hodd =>
    have hr : r.receive p = .ok (r.step p.stripped) := if_pos (hp.mpr hodd)
    rw [hr] at hb
    exact ⟨_, _, hr, hb⟩
  · next hodd =>
    have hr : r.receive p = .error ⟨p⟩ := if_neg (mt hp.mp hodd)
    rw [hr] at hb
    exact ⟨hr, hb⟩

/-- A cursor that stood behind the last column would stop a bare receiver. -/
example : ∃ b, type .shown 'A' { fresh with column := 32 } = .error (.outside 32 32) b :=
  ⟨_, rfl⟩

end Bare

end Line21
