import Line21.Proofs.Receiver.Loading

/-!
# Spelling codes as pairs

Each order and each code that loads a layout is said by some pair: there is a preamble for
every row and every indent, a tab for every offset below four, and a byte for every basic
character. Two basic characters share a pair, and a lone one leaves the second byte empty.
-/

namespace Line21

/-- Some pair on the air says the code. -/
def Code.IsSpelled (c : Code) : Prop := ∃ p : BytePair, p.stripped.code = c

/-- Pairs that are sent with their parity say codes, one each. -/
structure BytePair.Say (ps : List BytePair) (codes : List Code) : Prop where
  parity : ∀ p ∈ ps, p.parityHolds = true
  map_code : ps.map (·.stripped.code) = codes

/-- What pairs say is what is heard of them. -/
theorem BytePair.Say.map_code_stripped {ps : List BytePair} {codes : List Code}
    (h : BytePair.Say ps codes) : (ps.map stripped).map code = codes := by
  rw [List.map_map]
  exact h.map_code

namespace Charset

private theorem exists_byte_of_mem_basics {x : Char} (h : x ∈ basics) :
    ∃ n : Fin 96, x = basic (UInt8.ofNat (n.val + 32)) := by
  obtain ⟨n, hn, rfl⟩ := List.mem_map.mp h
  rw [List.mem_range'_1] at hn
  refine ⟨⟨n - 32, by omega⟩, ?_⟩
  rw [Nat.sub_add_cancel hn.1]

end Charset

namespace BytePair

private theorem code_of_basic (n : Fin 96) (second : UInt8) :
    (⟨UInt8.ofNat (n.val + 32), second⟩ : BytePair).stripped.code =
      .basic (Charset.basicPair ⟨UInt8.ofNat (n.val + 32), second⟩) := by
  have hfirst : ∀ n : Fin 96, let b := UInt8.ofNat (n.val + 32)
      b &&& 0x7f = b ∧ b ≠ 0 ∧ ¬ b ≤ 0x0f ∧ 0x20 ≤ b ∧ b &&& 0x76 ≠ 0x14 ∧ b &&& 0x77 ≠ 0x17 ∧
        b &&& 0x70 ≠ 0x10 ∧ b &&& 0x77 ≠ 0x11 ∧ b &&& 0x76 ≠ 0x12 := by
    decide +kernel
  obtain ⟨hb, h₀, h₁, h₂, h₃, h₄, h₅, h₆, h₇⟩ := hfirst n
  generalize UInt8.ofNat (n.val + 32) = b at *
  rw [stripped, hb]
  simp [code, zero, inPacket, isControl, isTab, isPreamble, isMidRow, isSpecial, isExtended,
    isBasic, Charset.basicPair, h₀, h₁, h₂, h₃, h₄, h₅, h₆, h₇, UInt8.and_assoc]

end BytePair

namespace Code

/-- There is a pair for every order. -/
theorem isSpelled_control (command : Command) : IsSpelled (.control .one command) := by
  cases command with
  | resumeLoading => exact ⟨⟨0x14, 0x20⟩, rfl⟩
  | backspace => exact ⟨⟨0x14, 0x21⟩, rfl⟩
  | eraseToEnd => exact ⟨⟨0x14, 0x24⟩, rfl⟩
  | rollUp depth =>
    cases depth with
    | two => exact ⟨⟨0x14, 0x25⟩, rfl⟩
    | three => exact ⟨⟨0x14, 0x26⟩, rfl⟩
    | four => exact ⟨⟨0x14, 0x27⟩, rfl⟩
  | resumeDirect => exact ⟨⟨0x14, 0x29⟩, rfl⟩
  | resumeText => exact ⟨⟨0x14, 0x2b⟩, rfl⟩
  | eraseShown => exact ⟨⟨0x14, 0x2c⟩, rfl⟩
  | carriageReturn => exact ⟨⟨0x14, 0x2d⟩, rfl⟩
  | eraseHidden => exact ⟨⟨0x14, 0x2e⟩, rfl⟩
  | endCaption => exact ⟨⟨0x14, 0x2f⟩, rfl⟩
  | none => exact ⟨⟨0x14, 0x28⟩, rfl⟩

/-- There is a preamble for every row and indent. -/
theorem isSpelled_preamble (row : Row) (column : Column) :
    IsSpelled (.preamble .one (some row) column.indent) := by
  have hp : ∀ (row : Row) (k : Fin 8), ∃ i : Fin 8, ∃ j : Fin 2,
      (⟨UInt8.ofNat (16 + i.val), UInt8.ofNat (80 + 32 * j.val + 2 * k.val)⟩ :
        BytePair).stripped.code = .preamble .one (some row) ⟨4 * k.val, by omega⟩ := by
    decide +kernel
  obtain ⟨i, j, h⟩ := hp row ⟨column.val / 4, by omega⟩
  exact ⟨_, h⟩

private theorem isSpelled_tab {n : Nat} (h : n ≠ 0) (h' : n < 4) : IsSpelled (.tab .one n) := by
  have ht : ∀ n : Fin 4, n.val ≠ 0 →
      (⟨0x17, UInt8.ofNat (0x20 + n.val)⟩ : BytePair).stripped.code = .tab .one n.val := by
    decide +kernel
  exact ⟨_, ht ⟨n, h'⟩ h⟩

/-- There are pairs for basic characters two by two. -/
theorem isSpelled_basic {text chars : List Char} (ht : text ⊆ Charset.basics)
    (hc : chars ∈ pairUp text) : IsSpelled (.basic chars) := by
  fun_induction pairUp text with
  | case1 => cases hc
  | case2 x =>
    obtain rfl := List.mem_singleton.mp hc
    obtain ⟨n, rfl⟩ := Charset.exists_byte_of_mem_basics (ht List.mem_cons_self)
    have hz : ¬ (0x20 : UInt8) ≤ 0 &&& 0x7f := by decide
    refine ⟨_, (BytePair.code_of_basic n 0).trans ?_⟩
    rw [Charset.basicPair, if_neg hz]
  | case3 x y rest ih =>
    rcases List.mem_cons.mp hc with rfl | hc
    · obtain ⟨n, rfl⟩ := Charset.exists_byte_of_mem_basics (ht List.mem_cons_self)
      obtain ⟨m, rfl⟩ := Charset.exists_byte_of_mem_basics
        (ht (List.mem_cons_of_mem _ List.mem_cons_self))
      have hm : ∀ m : Fin 96, let b := UInt8.ofNat (m.val + 32)
          b &&& 0x7f = b ∧ 0x20 ≤ b := by
        decide +kernel
      refine ⟨_, (BytePair.code_of_basic n (UInt8.ofNat (m.val + 32))).trans ?_⟩
      rw [Charset.basicPair, (hm m).1, if_pos (hm m).2]
    · exact ih (fun z hz ↦ ht (List.mem_cons_of_mem _ (List.mem_cons_of_mem _ hz))) hc

/-- Codes that are spelled can be sent. -/
theorem exists_say {codes : List Code} (h : ∀ c ∈ codes, c.IsSpelled) :
    ∃ ps, BytePair.Say ps codes := by
  induction codes with
  | nil => exact ⟨[], nofun, rfl⟩
  | cons c codes ih =>
    rw [List.forall_mem_cons] at h
    obtain ⟨p, hp⟩ := h.1
    obtain ⟨ps, hparity, hps⟩ := ih h.2
    refine ⟨p.sent :: ps, List.forall_mem_cons.mpr ⟨p.parityHolds_sent, hparity⟩, ?_⟩
    rw [List.map_cons, p.stripped_sent, hp, hps]

/-- Every code that loads a layout is said by some pair. -/
theorem isSpelled_of_mem_codes (l : Layout) {c : Code} (h : c ∈ l.codes) : c.IsSpelled := by
  rcases List.mem_cons.mp h with rfl | h
  · exact isSpelled_control .resumeLoading
  · obtain ⟨p, -, hp⟩ := List.mem_flatMap.mp h
    rcases List.mem_cons.mp hp with rfl | hp
    · exact isSpelled_preamble p.row p.column
    · rcases List.mem_append.mp hp with hp | hp
      · by_cases hz : p.column.val % 4 = 0
        · rw [if_pos hz] at hp
          cases hp
        · rw [if_neg hz, List.mem_singleton] at hp
          rw [hp]
          exact isSpelled_tab hz (Nat.mod_lt _ (by omega))
      · obtain ⟨chars, hc, rfl⟩ := List.mem_map.mp hp
        exact isSpelled_basic p.isBasic hc

end Code

end Line21
