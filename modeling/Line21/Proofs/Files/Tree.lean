import Line21.Files.Tree
import Mathlib.Data.List.Basic

/-!
# Looking at trees of files

What stands at a path is told by the listing, as far as the directories above the path are there.
Main statement: a file that is put into a directory at a path where nothing stood is found there,
and whatever else is looked at is found as before.
-/

namespace Line21.Files.Tree

variable {t t' t'' : Tree} {p q directory : Absolute} {name : String} {content : List UInt8}

/-! ### Listings -/

private theorem node?_put_of_ne (h : q ≠ p) (n : Node) : (t.put p n).node? q = t.node? q := by
  have hfilter (entries : List (Absolute × Node)) :
      (entries.filter (·.1 != p)).lookup q = entries.lookup q := by
    induction entries with
    | nil => rfl
    | cons e entries ih =>
      by_cases he : e.1 = p
      · have hq : (q == e.1) = false := beq_false_of_ne (he ▸ h)
        rw [List.filter_cons_of_neg (by simp [he]), ih, List.lookup_cons, hq]
      · rw [List.filter_cons_of_pos (by simp [he]), List.lookup_cons, List.lookup_cons, ih]
  have hp : [(p, n)].lookup q = none := by
    rw [List.lookup_cons, beq_false_of_ne h]
    rfl
  simp only [node?, put, List.lookup_append, hfilter, hp, Option.or_none]

/-- What is listed below the root is among the entries. -/
theorem mem_entries_of_node? {n : Node} (hp : p ≠ []) (h : t.node? p = some n) :
    p ∈ t.entries.map Prod.fst := by
  rw [node?, if_neg hp, List.lookup_eq_some_iff] at h
  obtain ⟨before, after, he, -⟩ := h
  rw [he, List.map_append, List.map_cons]
  exact List.mem_append_right _ List.mem_cons_self

/-! ### Walking down -/

private theorem node?_of_walk {here rest : Absolute} {n : Node}
    (h : t.walk here rest = .ok (some n)) :
    t.node? (here ++ rest) = some n := by
  induction rest generalizing here with
  | nil =>
    rw [List.append_nil]
    exact Except.ok.inj h
  | cons component rest ih =>
    rw [walk] at h
    split at h
    · split at h
      · cases h
      · rw [List.append_cons]
        exact ih h
    · cases h

private theorem walk_concat {here rest : Absolute} (h : t.walk here rest = .ok (some .directory))
    (name : String) :
    t.walk here (rest ++ [name]) =
      if longestName < name.utf8ByteSize then .error .nameTooLong
      else .ok (t.node? (here ++ (rest ++ [name]))) := by
  induction rest generalizing here with
  | nil =>
    have hn : t.node? here = some .directory := Except.ok.inj h
    rw [List.nil_append, walk, hn]
    rfl
  | cons component rest ih =>
    rw [walk] at h
    rw [List.cons_append, walk]
    split at h
    · split at h
      · cases h
      · next hl => rw [if_neg hl, ih h, ← List.append_cons]
    · cases h

private theorem walk_put (hp : t.node? p = none) {here rest : Absolute} (h : here ++ rest ≠ p) :
    (t.put p (.file content)).walk here rest = t.walk here rest := by
  induction rest generalizing here with
  | nil =>
    rw [List.append_nil] at h
    rw [walk, walk, node?_put_of_ne h]
  | cons component rest ih =>
    rw [List.append_cons] at h
    rw [walk, walk, ih h]
    by_cases hh : here = p
    -- Where nothing was, there was nothing below, and neither is there below a file.
    · subst hh
      rw [hp]
      by_cases hn : here = []
      · subst hn
        cases hp
      · rw [node?_put_self hn]
    · rw [node?_put_of_ne hh]

/-! ### Looking -/

/-- What is seen at a path is listed there. -/
theorem node?_of_lookAt {n : Node} (h : t.lookAt p = .ok (some n)) : t.node? p = some n := by
  rw [lookAt] at h
  split at h
  · cases h
  · exact node?_of_walk h

/-- What is seen in a directory is what is listed there, unless the name or the path is longer than
it may be. -/
theorem lookAt_concat (hd : t.lookAt directory = .ok (some .directory)) (name : String) :
    t.lookAt (directory ++ [name]) =
      if longestPath < (Absolute.text (directory ++ [name])).utf8ByteSize ∨
          longestName < name.utf8ByteSize then .error .nameTooLong
      else .ok (t.node? (directory ++ [name])) := by
  rw [lookAt] at hd
  split at hd
  · cases hd
  · rw [lookAt, walk_concat hd, List.nil_append, ite_or]

/-- A name in a directory at which nothing is seen is not listed. -/
theorem node?_of_lookAt_concat (hd : t.lookAt directory = .ok (some .directory))
    (h : t.lookAt (directory ++ [name]) = .ok none) : t.node? (directory ++ [name]) = none := by
  rw [lookAt_concat hd] at h
  split at h
  · cases h
  · exact Except.ok.inj h

/-- A new file changes nothing that is seen at other paths. -/
theorem lookAt_put_of_ne (hp : t.node? p = none) (h : q ≠ p) :
    (t.put p (.file content)).lookAt q = t.lookAt q := by
  have hq : [] ++ q ≠ p := h
  rw [lookAt, lookAt, walk_put hp hq]

private theorem lookAt_put_self (hd : t.lookAt directory = .ok (some .directory))
    (h : t.lookAt (directory ++ [name]) = .ok none) :
    (t.put (directory ++ [name]) (.file content)).lookAt (directory ++ [name]) =
      .ok (some (.file content)) := by
  have hp := node?_of_lookAt_concat hd h
  have hne : directory ≠ directory ++ [name] := by simp
  have hd' : (t.put (directory ++ [name]) (.file content)).lookAt directory =
      .ok (some .directory) := (lookAt_put_of_ne hp hne).trans hd
  rw [lookAt_concat hd] at h
  rw [lookAt_concat hd']
  split at h
  · cases h
  · next hshort =>
    rw [if_neg hshort, node?_put_self (List.concat_ne_nil name directory)]

/-! ### New files -/

/-- One tree is another with new files of one content, at paths where nothing stood. Whatever else
is seen in it is seen as before. -/
structure Adds (t t' : Tree) (paths : List Absolute) (content : List UInt8) : Prop where
  free : ∀ p ∈ paths, t.lookAt p = .ok none
  added : ∀ p ∈ paths, t'.lookAt p = .ok (some (.file content))
  kept : ∀ p ∉ paths, t'.lookAt p = t.lookAt p

namespace Adds

/-- Nothing is added. -/
theorem nil (t : Tree) (content : List UInt8) : t.Adds t [] content :=
  ⟨nofun, nofun, fun _ _ ↦ rfl⟩

/-- A file is added when it is put into a directory where nothing stood under its name. -/
theorem put (hd : t.lookAt directory = .ok (some .directory))
    (h : t.lookAt (directory ++ [name]) = .ok none) (content : List UInt8) :
    t.Adds (t.put (directory ++ [name]) (.file content)) [directory ++ [name]] content where
  free := by
    intro p hp
    rwa [List.mem_singleton.mp hp]
  added := by
    intro p hp
    rw [List.mem_singleton.mp hp]
    exact lookAt_put_self hd h
  kept := by
    intro p hp
    rw [List.mem_singleton] at hp
    exact lookAt_put_of_ne (node?_of_lookAt_concat hd h) hp

/-- Whatever is seen is seen afterwards too. -/
theorem lookAt_eq {paths : List Absolute} (h : t.Adds t' paths content) {n : Node}
    (hp : t.lookAt p = .ok (some n)) : t'.lookAt p = .ok (some n) := by
  rw [h.kept, hp]
  intro hm
  rw [h.free p hm] at hp
  cases hp

/-- Files that are added later are not those that were added before. -/
theorem disjoint {ps qs : List Absolute} {content' : List UInt8} (h : t.Adds t' ps content)
    (h' : t'.Adds t'' qs content') : ∀ q ∈ qs, q ∉ ps := by
  intro q hq hp
  have hfree := h'.free q hq
  rw [h.added q hp] at hfree
  cases hfree

/-- Files of one content are added after others. -/
theorem append {ps qs : List Absolute} (h : t.Adds t' ps content) (h' : t'.Adds t'' qs content) :
    t.Adds t'' (ps ++ qs) content where
  free := by
    intro p hp
    rcases List.mem_append.mp hp with hp | hq
    · exact h.free p hp
    · rw [← h.kept p (h.disjoint h' p hq)]
      exact h'.free p hq
  added := by
    intro p hp
    rcases List.mem_append.mp hp with hp | hq
    · exact h'.lookAt_eq (h.added p hp)
    · exact h'.added p hq
  kept := by
    intro p hp
    rw [List.mem_append, not_or] at hp
    rw [h'.kept p hp.2, h.kept p hp.1]

end Adds

end Line21.Files.Tree
