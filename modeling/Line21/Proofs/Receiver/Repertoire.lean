import Line21.Proofs.Format.Lines
import Line21.Proofs.Receiver.Gates
import Line21.Proofs.Receiver.Writing

/-!
# What can stand on the screen

Whatever pairs a receiver hears, the characters that they write are basic, special or extended
ones. Its memories hold no others, and none of these ends a line. So the text on the screen is
made of lines that are neither empty nor broken.
-/

namespace Line21

/-! ### The characters of codes -/

/-- All characters that can be written. -/
def Charset.repertoire : List Char :=
  basics ++ (specials.toList ++ (spanishFrench.toList ++ portugueseGerman.toList))

/-- The characters that a code may write. -/
def Code.chars : Code → List Char
  | .midRow _ => [' ']
  | .special x | .extended x => [x]
  | .basic xs => xs
  | _ => []

namespace Charset

/-- No character that can be written ends a line. -/
theorem not_isLineEnd_of_mem_repertoire {x : Char} (h : x ∈ repertoire) :
    Text.isLineEnd x = false := by
  have ha : repertoire.all fun x ↦ !Text.isLineEnd x := by decide +kernel
  exact Bool.not_eq_true' _ ▸ List.all_eq_true.mp ha x h

private theorem basic_mem_basics {b : UInt8} (h : 0x20 ≤ b &&& 0x7f) :
    basic (b &&& 0x7f) ∈ basics := by
  have hu : (b &&& 0x7f).toNat ≤ 0x7f := Nat.and_le_right
  have hl : 0x20 ≤ (b &&& 0x7f).toNat := UInt8.le_iff_toNat_le.mp h
  refine List.mem_map.mpr ⟨(b &&& 0x7f).toNat, List.mem_range'_1.mpr ⟨hl, by omega⟩, ?_⟩
  rw [UInt8.ofNat_toNat]

private theorem special_mem_repertoire (b : UInt8) : special b ∈ repertoire :=
  List.mem_append_right _
    (List.mem_append_left _ (Vector.mem_toList_iff.mpr (Vector.getElem_mem _)))

private theorem extended_mem_repertoire (p : BytePair) : extended p ∈ repertoire := by
  refine List.mem_append_right _ (List.mem_append_right _ ?_)
  rw [extended]
  split
  · exact List.mem_append_left _ (Vector.mem_toList_iff.mpr (Vector.getElem_mem _))
  · exact List.mem_append_right _ (Vector.mem_toList_iff.mpr (Vector.getElem_mem _))

private theorem basicPair_subset_repertoire {p : BytePair} (h : 0x20 ≤ p.stripped.first) :
    basicPair p.stripped ⊆ repertoire := by
  intro x hx
  refine List.mem_append_left _ ?_
  rw [basicPair] at hx
  rcases List.mem_cons.mp hx with rfl | hx
  · exact basic_mem_basics h
  · split at hx
    · next hs =>
      rw [List.mem_singleton.mp hx]
      exact basic_mem_basics hs
    · cases hx

end Charset

private theorem chars_ite {c : Prop} [Decidable c] {a b : Code} {xs : List Char}
    (ha : c → a.chars ⊆ xs) (hb : b.chars ⊆ xs) : (if c then a else b).chars ⊆ xs := by
  split
  · next h => exact ha h
  · exact hb

private theorem BytePair.chars_code_subset (p : BytePair) :
    p.stripped.code.chars ⊆ Charset.repertoire := by
  have hspace : ' ' ∈ Charset.repertoire := by decide +kernel
  unfold code
  -- Padding, packets and codes that only move or order come before those that write.
  refine chars_ite (fun _ ↦ List.nil_subset _) ?_
  refine chars_ite (fun _ ↦ List.nil_subset _) ?_
  refine chars_ite (fun _ ↦ List.nil_subset _) ?_
  refine chars_ite (fun _ ↦ List.nil_subset _) ?_
  refine chars_ite (fun _ ↦ List.nil_subset _) ?_
  refine chars_ite (fun _ ↦ List.cons_subset.mpr ⟨hspace, List.nil_subset _⟩) ?_
  refine chars_ite (fun _ ↦ List.cons_subset.mpr
    ⟨Charset.special_mem_repertoire _, List.nil_subset _⟩) ?_
  refine chars_ite (fun _ ↦ List.cons_subset.mpr
    ⟨Charset.extended_mem_repertoire _, List.nil_subset _⟩) ?_
  exact chars_ite (fun h ↦ Charset.basicPair_subset_repertoire (of_decide_eq_true h))
    (List.nil_subset _)

/-! ### Memories -/

namespace Memory

/-- All characters in a memory are of a kind. -/
def Holds (P : Char → Prop) (m : Memory) : Prop := ∀ r c x, m.cell r c = some x → P x

variable {P : Char → Prop}

/-- The empty memory holds nothing. -/
theorem holds_empty : empty.Holds P := by
  intro r c x h
  rw [cell_empty] at h
  cases h

/-- A cell may be set to a character of the kind. -/
theorem Holds.put {m : Memory} (h : m.Holds P) (r : Row) (c : Column) {x : Option Char}
    (hx : ∀ y ∈ x, P y) : (m.put r c x).Holds P := by
  intro r' c' y hy
  rw [cell_put] at hy
  split at hy
  · exact hx y hy
  · exact h r' c' y hy

private theorem Holds.eraseFrom {m : Memory} (h : m.Holds P) (r : Row) (c : Column) :
    (m.eraseFrom r c).Holds P := by
  intro r' c' y hy
  rw [cell_eraseFrom] at hy
  split at hy
  · cases hy
  · exact h r' c' y hy

private theorem Holds.rollUp {m : Memory} (h : m.Holds P) (base : Row) (depth : Depth) :
    (m.rollUp base depth).Holds P := by
  intro r c y hy
  rw [cell_rollUp] at hy
  split at hy
  · split at hy
    · exact h _ c y hy
    · cases hy
  · split at hy
    · cases hy
    · exact h r c y hy

private theorem Holds.typed {m : Memory} (h : m.Holds P) (r : Row) (c : Column) {chars : List Char}
    (hc : ∀ x ∈ chars, P x) : (m.typed r c chars).Holds P := by
  induction chars generalizing m c with
  | nil => exact h
  | cons x chars ih =>
    rw [List.forall_mem_cons] at hc
    refine ih (h.put r c fun y hy ↦ ?_) (c.advance 1) hc.2
    rw [← Option.mem_some.mp hy]
    exact hc.1

private theorem Holds.of_mem_lines {m : Memory} (h : m.Holds P) {l : List Char} (hl : l ∈ m.lines)
    {x : Char} (hx : x ∈ l) : P x := by
  have htrim {cs : List Char} (hx : x ∈ Text.trim cs) : x ∈ cs := by
    have hx := List.dropWhile_subset _ (List.mem_reverse.mp hx)
    exact List.dropWhile_subset _ (List.mem_reverse.mp hx)
  rw [lines_eq] at hl
  obtain ⟨r, -, rfl⟩ := List.mem_map.mp (List.mem_filter.mp hl).1
  rw [lineOf_row] at hx
  obtain ⟨c, -, hc⟩ := List.mem_filterMap.mp (htrim hx)
  exact h r c x hc

private theorem Holds.isMadeOf_text {m : Memory} (h : m.Holds (Text.isLineEnd · = false)) :
    Text.IsMadeOf m.text m.lines where
  eq := rfl
  nonempty hl := nomatch (List.mem_filter.mp hl).2
  unbroken _ hl hx := nomatch (h.of_mem_lines hl hx : Text.isLineEnd '\r' = false)

end Memory

/-! ### Receivers -/

namespace Receiver

/-- All characters in both memories are of a kind. -/
structure Holds (P : Char → Prop) (r : Receiver) : Prop where
  shown : r.shown.Holds P
  hidden : r.hidden.Holds P

variable {P : Char → Prop} {r : Receiver}

/-- A receiver that has heard nothing holds nothing. -/
theorem holds_fresh : fresh.Holds P := ⟨Memory.holds_empty, Memory.holds_empty⟩

/-- A change that adds no other characters may be made to the target. -/
theorem Holds.edit (h : r.Holds P) {f : Memory → Memory} (hf : ∀ m, m.Holds P → (f m).Holds P) :
    (r.edit f).Holds P := by
  unfold Receiver.edit
  split
  · exact h
  · exact ⟨hf _ h.shown, h.hidden⟩
  · exact ⟨h.shown, hf _ h.hidden⟩

private theorem Holds.write (h : r.Holds P) {chars : List Char} (hc : ∀ x ∈ chars, P x) :
    (r.write chars).1.Holds P := by
  cases ht : r.target with
  | none =>
    rw [write_of_none ht]
    exact h
  | some plane =>
    cases plane with
    | shown =>
      rw [write_of_shown ht]
      exact ⟨h.shown.typed _ _ hc, h.hidden⟩
    | hidden =>
      rw [write_of_hidden ht]
      exact ⟨h.shown, h.hidden.typed _ _ hc⟩

/-- Taking back a character adds none. -/
theorem Holds.backspace (h : r.Holds P) : r.backspace.Holds P := by
  unfold Receiver.backspace
  split
  · next c _ _ =>
    have he := h.edit (f := (·.put r.row c none)) fun m hm ↦ hm.put r.row c nofun
    exact ⟨he.shown, he.hidden⟩
  · exact h

private theorem Holds.obey (h : r.Holds P) (command : Command) : (r.obey command).1.Holds P := by
  cases command with
  | eraseShown => exact ⟨Memory.holds_empty, h.hidden⟩
  | eraseHidden => exact ⟨h.shown, Memory.holds_empty⟩
  | endCaption => exact ⟨h.hidden, Memory.holds_empty⟩
  | carriageReturn =>
    rw [Receiver.obey]
    split
    · exact h
    · exact ⟨h.shown.rollUp _ _, h.hidden⟩
  | backspace => exact h.backspace
  | eraseToEnd => exact h.edit fun m hm ↦ hm.eraseFrom _ _
  | resumeLoading | resumeDirect | rollUp _ | resumeText | none => exact ⟨h.shown, h.hidden⟩

private theorem Holds.act (h : r.Holds P) {c : Code} (hc : ∀ x ∈ c.chars, P x) :
    (r.act c).1.Holds P := by
  have hchannel (channel : Channel) : ({ r with channel } : Receiver).Holds P :=
    ⟨h.shown, h.hidden⟩
  cases c with
  | control channel command =>
    cases channel with
    | one => exact (hchannel .one).obey command
    | two => exact hchannel .two
  | tab channel columns =>
    rw [Receiver.act]
    split <;> exact ⟨h.shown, h.hidden⟩
  | preamble channel row column =>
    cases channel with
    | one => cases row <;> exact ⟨h.shown, h.hidden⟩
    | two => exact hchannel .two
  | midRow channel =>
    cases channel with
    | one => exact (hchannel .one).write hc
    | two => exact hchannel .two
  | special x =>
    rw [Receiver.act]
    split
    · exact h.write hc
    · exact h
  | extended x =>
    rw [Receiver.act]
    split
    · exact h.backspace.write hc
    · exact h
  | basic chars =>
    rw [Receiver.act]
    split
    · exact h.write hc
    · exact h
  | padding | packet _ | unknown => exact h

/-- A pair adds the characters that its code may write. -/
theorem Holds.step (h : r.Holds P) {p : BytePair} (hc : ∀ x ∈ p.code.chars, P x) :
    (r.step p).1.Holds P := by
  rcases r.step_cases p with ⟨-, last, inPacket, hs⟩ | ⟨-, hs⟩
  · rw [hs]
    exact ⟨h.shown, h.hidden⟩
  · have hl : ({ r with inPacket := false, last := p } : Receiver).Holds P :=
      ⟨h.shown, h.hidden⟩
    rw [hs]
    exact hl.act hc

/-- A receiver that holds characters that can be written goes on holding nothing else. -/
theorem Holds.receive {r' : Receiver} {p : BytePair} {moment : Moment}
    (h : r.Holds (· ∈ Charset.repertoire)) (hr : r.receive p = .ok (r', moment)) :
    r'.Holds (· ∈ Charset.repertoire) := by
  have hs : (r.step p.stripped).1 = r' := congrArg Prod.fst (step_of_receive hr)
  rw [← hs]
  exact h.step fun x hx ↦ p.chars_code_subset hx

/-- The text on the screen of a receiver is made of lines that are neither empty nor broken. -/
theorem Holds.isMadeOf_text {text : String} (h : r.Holds (· ∈ Charset.repertoire))
    (ht : r.text = .ok text) : ∃ lines, Text.IsMadeOf text lines := by
  unfold Receiver.text at ht
  split at ht
  · obtain rfl := Except.ok.inj ht
    have hm : r.shown.Holds (Text.isLineEnd · = false) :=
      fun row c x hx ↦ Charset.not_isLineEnd_of_mem_repertoire (h.shown row c x hx)
    exact ⟨_, hm.isMadeOf_text⟩
  · cases ht

end Receiver

end Line21
