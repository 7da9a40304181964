import Line21.CommandLine.Run
import Line21.Proofs.Files.Tree
import Mathlib.Data.List.Nodup
import Mathlib.Data.List.Perm.Subperm

/-!
# Free paths

A new file gets the first of its names under which nothing stands. The names differ, and a tree has
finitely many entries, so one of them is free. Main statements: the search ends by itself, with as
many tries as there are entries and one more, and what it finds is the first free name.
-/

namespace Line21.CommandLine

open Files (Absolute Tree Node PathError)

variable {tree : Tree} {directory p : Absolute} {stem suffix name : String} {k n tries : Nat}

/-! ### Names -/

/-- The characters of the number in a name. -/
private def numberChars (n : Nat) : List Char :=
  if n = 0 then [] else '-' :: Nat.toDigits 10 (n + 1)

private theorem toList_candidate (stem suffix : String) (n : Nat) :
    (candidate stem suffix n).toList = stem.toList ++ (numberChars n ++ suffix.toList) := by
  unfold candidate numberChars
  split
  · rw [String.toList_append, List.nil_append]
  · simp

/-- Different numbers make different names. -/
theorem candidate_inj {m : Nat} (h : candidate stem suffix m = candidate stem suffix n) :
    m = n := by
  have hl := congrArg String.toList h
  rw [toList_candidate, toList_candidate] at hl
  have hnumber := List.append_cancel_right (List.append_cancel_left hl)
  unfold numberChars at hnumber
  split at hnumber
  · split at hnumber
    · omega
    · cases hnumber
  · split at hnumber
    · cases hnumber
    · have hdigits := congrArg (Nat.ofDigitChars 10 · 0) (List.cons.inj hnumber).2
      simp only [Nat.ofDigitChars_ten_toDigits] at hdigits
      omega

/-! ### Taken and free -/

/-- Something stands in a directory under a name. -/
def Taken (tree : Tree) (directory : Absolute) (name : String) : Prop :=
  ∃ node, tree.lookAt (directory ++ [name]) = .ok (some node)

/-- Nothing stands in a directory under a name. -/
def Free (tree : Tree) (directory : Absolute) (name : String) : Prop :=
  tree.lookAt (directory ++ [name]) = .ok none

/-- When names are taken, there are as many entries. -/
theorem le_length_of_taken (h : ∀ m < k, Taken tree directory (candidate stem suffix m)) :
    k ≤ tree.entries.length := by
  let paths := (List.range k).map fun m ↦ directory ++ [candidate stem suffix m]
  have hnodup : paths.Nodup := by
    refine List.nodup_range.map fun m n hmn ↦ ?_
    have hname : candidate stem suffix m = candidate stem suffix n := by simpa using hmn
    exact candidate_inj hname
  have hsub : paths ⊆ tree.entries.map Prod.fst := by
    intro p hp
    obtain ⟨m, hm, rfl⟩ := List.mem_map.mp hp
    obtain ⟨node, hnode⟩ := h m (List.mem_range.mp hm)
    exact Tree.mem_entries_of_node? (List.concat_ne_nil _ _) (Tree.node?_of_lookAt hnode)
  have hlength := (hnodup.subperm hsub).length_le
  simpa [paths] using hlength

private theorem exists_not_taken (tree : Tree) (directory : Absolute) (stem suffix : String) :
    ∃ k ≤ tree.entries.length, ¬ Taken tree directory (candidate stem suffix k) := by
  by_contra h
  simp only [not_exists, not_and, not_not] at h
  have := le_length_of_taken fun m hm ↦ h m (Nat.lt_succ_iff.mp hm)
  omega

/-! ### The search -/

/-- A try of the search. -/
theorem freePathFrom_succ (tree : Tree) (directory : Absolute) (stem suffix : String)
    (n tries : Nat) :
    freePathFrom tree directory stem suffix n (tries + 1) =
      match tree.lookAt (directory ++ [candidate stem suffix n]) with
      | .error e => .error e
      | .ok none => .ok (directory ++ [candidate stem suffix n])
      | .ok (some _) => freePathFrom tree directory stem suffix (n + 1) tries := by
  rw [freePathFrom, Tree.exists?]
  cases tree.lookAt (directory ++ [candidate stem suffix n]) with
  | error e => rfl
  | ok node => cases node <;> rfl

private theorem freePathFrom_of_free (hn : n ≤ k) (hk : k < n + tries)
    (htaken : ∀ m, n ≤ m → m < k → Taken tree directory (candidate stem suffix m))
    (hfree : Free tree directory (candidate stem suffix k)) :
    freePathFrom tree directory stem suffix n tries =
      .ok (directory ++ [candidate stem suffix k]) := by
  induction tries generalizing n with
  | zero => omega
  | succ tries ih =>
    rw [freePathFrom_succ]
    rcases Nat.eq_or_lt_of_le hn with rfl | hlt
    · rw [hfree]
    · obtain ⟨node, hnode⟩ := htaken n (Nat.le_refl n) hlt
      rw [hnode]
      exact ih hlt (by omega) fun m hm ↦ htaken m (by omega)

private theorem exists_of_freePathFrom
    (h : freePathFrom tree directory stem suffix n tries = .ok p) :
    ∃ k, n ≤ k ∧ p = directory ++ [candidate stem suffix k] ∧
      (∀ m, n ≤ m → m < k → Taken tree directory (candidate stem suffix m)) ∧
      (Free tree directory (candidate stem suffix k) ∨ k = n + tries) := by
  induction tries generalizing n with
  | zero =>
    obtain rfl := Except.ok.inj h
    exact ⟨n, Nat.le_refl n, rfl, fun m hm hlt ↦ by omega, .inr rfl⟩
  | succ tries ih =>
    rw [freePathFrom_succ] at h
    split at h
    · cases h
    · next hfree =>
      obtain rfl := Except.ok.inj h
      exact ⟨n, Nat.le_refl n, rfl, fun m hm hlt ↦ by omega, .inl hfree⟩
    · next node hnode =>
      obtain ⟨k, hk, rfl, htaken, hend⟩ := ih h
      refine ⟨k, Nat.le_of_succ_le hk, rfl, fun m hm hlt ↦ ?_, hend.imp_right (by omega)⟩
      rcases Nat.eq_or_lt_of_le hm with rfl | hm
      · exact ⟨node, hnode⟩
      · exact htaken m hm hlt

private theorem freePathFrom_succ_of_not_taken (hn : n ≤ k) (hk : k < n + tries)
    (h : ¬ Taken tree directory (candidate stem suffix k)) :
    freePathFrom tree directory stem suffix n (tries + 1) =
      freePathFrom tree directory stem suffix n tries := by
  induction tries generalizing n with
  | zero => omega
  | succ tries ih =>
    rw [freePathFrom_succ _ _ _ _ n (tries + 1), freePathFrom_succ _ _ _ _ n tries]
    split
    · rfl
    · rfl
    · next node hnode =>
      rcases Nat.eq_or_lt_of_le hn with rfl | hlt
      · exact absurd ⟨node, hnode⟩ h
      · exact ih hlt (by omega)

/-- The search ends by itself: it finds the same with any number of tries past the number of
entries. -/
theorem freePathFrom_eq_freePath (h : tree.entries.length < tries) :
    freePathFrom tree directory stem suffix 0 tries = freePath tree directory stem suffix := by
  obtain ⟨k, hk, hfree⟩ := exists_not_taken tree directory stem suffix
  induction h with
  | refl => rfl
  | step hle ih =>
    have hlt := Nat.lt_of_le_of_lt hk hle
    rw [freePathFrom_succ_of_not_taken (Nat.zero_le k) (by omega) hfree, ih]

/-! ### First free names -/

/-- A name with a number. -/
def numbered (stem suffix : String) (k : Nat) : String := stem ++ "-" ++ toString k ++ suffix

/-- The name that a new file gets in a directory: the plain one if that is free, and else the one
with the least number from two on that is free. -/
inductive GetsName (tree : Tree) (directory : Absolute) (stem suffix : String) : String → Prop
  | plain (free : Free tree directory (stem ++ suffix)) :
    GetsName tree directory stem suffix (stem ++ suffix)
  | numbered {k : Nat} (two_le : 2 ≤ k) (taken : Taken tree directory (stem ++ suffix))
    (before : ∀ m, 2 ≤ m → m < k → Taken tree directory (numbered stem suffix m))
    (free : Free tree directory (numbered stem suffix k)) :
    GetsName tree directory stem suffix (numbered stem suffix k)

/-- The name that a new file gets is free. -/
theorem GetsName.isFree (h : GetsName tree directory stem suffix name) :
    Free tree directory name := by
  cases h with
  | plain free => exact free
  | numbered _ _ _ free => exact free

private theorem getsName_iff :
    GetsName tree directory stem suffix name ↔
      ∃ k, name = candidate stem suffix k ∧
        (∀ m < k, Taken tree directory (candidate stem suffix m)) ∧
        Free tree directory (candidate stem suffix k) := by
  constructor
  · rintro (free | ⟨two_le, taken, before, free⟩)
    · exact ⟨0, rfl, nofun, free⟩
    · rename_i k
      obtain ⟨k, rfl⟩ := Nat.exists_eq_add_of_le' two_le
      refine ⟨k + 1, rfl, fun m hm ↦ ?_, free⟩
      cases m with
      | zero => exact taken
      | succ m => exact before (m + 2) (by omega) (by omega)
  · rintro ⟨k, rfl, htaken, hfree⟩
    cases k with
    | zero => exact .plain hfree
    | succ k =>
      refine .numbered (k := k + 2) (by omega) (htaken 0 (by omega)) (fun m hm hlt ↦ ?_) hfree
      obtain ⟨m, rfl⟩ := Nat.exists_eq_add_of_le' hm
      exact htaken (m + 1) (by omega)

/-- The search finds the path of the name that a new file gets, and no other. -/
theorem freePath_eq_ok_iff :
    freePath tree directory stem suffix = .ok p ↔
      ∃ name, p = directory ++ [name] ∧ GetsName tree directory stem suffix name := by
  constructor
  · intro h
    obtain ⟨k, -, rfl, htaken, hend⟩ := exists_of_freePathFrom h
    refine ⟨_, rfl, getsName_iff.mpr ⟨k, rfl, fun m ↦ htaken m (Nat.zero_le m), ?_⟩⟩
    refine hend.resolve_right ?_
    rintro rfl
    -- The tries would have run out only if there were more paths taken than entries.
    have := le_length_of_taken fun m ↦ htaken m (Nat.zero_le m)
    omega
  · rintro ⟨name, rfl, h⟩
    obtain ⟨k, rfl, htaken, hfree⟩ := getsName_iff.mp h
    have hk := le_length_of_taken htaken
    exact freePathFrom_of_free (Nat.zero_le k) (by omega) (fun m _ ↦ htaken m) hfree

end Line21.CommandLine
