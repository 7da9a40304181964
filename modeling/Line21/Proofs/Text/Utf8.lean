import Line21.Text.Utf8

/-!
# Texts in UTF-8

A text that is encoded in UTF-8 is read back as it was, character by character. Main statement: it
does not matter whether a byte order mark stands in front, unless the text itself begins with one.
-/

namespace Line21.Text.Utf8

/-- The bytes of a text in UTF-8. -/
def encode (cs : List Char) : List UInt8 := (String.ofList cs).toUTF8.data.toList

/-- A text is encoded character by character. -/
theorem encode_eq_flatMap (cs : List Char) : encode cs = cs.flatMap String.utf8EncodeChar := by
  rw [encode, String.toUTF8_eq_toByteArray, String.toByteArray_ofList, List.utf8Encode,
    List.toList_data_toByteArray]

/-- A byte holds a number below 256. -/
theorem toNat_ofNat {n : Nat} (h : n < 256) : (UInt8.ofNat n).toNat = n :=
  UInt8.toNat_ofNat_of_lt' h

/-! ### One character -/

/-- Between characters a byte is a first byte. -/
theorem step_between (text : String) (b : UInt8) :
    Reading.step { text } b = Reading.first text b := rfl

section Bytes

variable {text : String} {n : Nat}

private theorem first_of_two (hl : 2 ≤ n) (hn : n < 32) :
    Reading.first text (UInt8.ofNat (n + 192)) =
      { text, begun := some { bits := n, owed := 0 } } := by
  have : ∀ k : Fin 32, 2 ≤ k.val → ¬ UInt8.ofNat (k.val + 192) < 0x80 ∧
      Begun.ofFirst? (UInt8.ofNat (k.val + 192)) = some { bits := k.val, owed := 0 } := by decide
  obtain ⟨hb, hf⟩ := this ⟨n, hn⟩ hl
  rw [Reading.first, if_neg hb, hf]

private theorem first_of_three (hn : n < 16) :
    Reading.first text (UInt8.ofNat (n + 224)) =
      { text, begun := some { bits := n, owed := 1, low := if n = 0 then 0xa0 else 0x80,
                              high := if n = 13 then 0x9f else 0xbf } } := by
  have : ∀ k : Fin 16, ¬ UInt8.ofNat (k.val + 224) < 0x80 ∧
      Begun.ofFirst? (UInt8.ofNat (k.val + 224)) =
        some { bits := k.val, owed := 1, low := if k.val = 0 then 0xa0 else 0x80,
               high := if k.val = 13 then 0x9f else 0xbf } := by decide
  obtain ⟨hb, hf⟩ := this ⟨n, hn⟩
  rw [Reading.first, if_neg hb, hf]

private theorem first_of_four (hn : n < 5) :
    Reading.first text (UInt8.ofNat (n + 240)) =
      { text, begun := some { bits := n, owed := 2, low := if n = 0 then 0x90 else 0x80,
                              high := if n = 4 then 0x8f else 0xbf } } := by
  have : ∀ k : Fin 5, ¬ UInt8.ofNat (k.val + 240) < 0x80 ∧
      Begun.ofFirst? (UInt8.ofNat (k.val + 240)) =
        some { bits := k.val, owed := 2, low := if k.val = 0 then 0x90 else 0x80,
               high := if k.val = 4 then 0x8f else 0xbf } := by decide
  obtain ⟨hb, hf⟩ := this ⟨n, hn⟩
  rw [Reading.first, if_neg hb, hf]

/-- A byte goes on with a character if it lies within the bounds. -/
theorem step_of_within {g : Begun} (hn : n < 64) (hl : g.low.toNat ≤ n + 128)
    (hh : n + 128 ≤ g.high.toNat) :
    Reading.step { text, begun := some g } (UInt8.ofNat (n + 128)) =
      match g.owed with
      | 0 => { text := text.push (Char.ofNat (0x40 * g.bits + n)) }
      | owed + 1 => { text, begun := some { bits := 0x40 * g.bits + n, owed } } := by
  have hv : (UInt8.ofNat (n + 128)).toNat = n + 128 := toNat_ofNat (by omega)
  have hbounds : (g.low ≤ UInt8.ofNat (n + 128) && UInt8.ofNat (n + 128) ≤ g.high) = true := by
    rw [Bool.and_eq_true, decide_eq_true_eq, decide_eq_true_eq, UInt8.le_iff_toNat_le,
      UInt8.le_iff_toNat_le, hv]
    exact ⟨hl, hh⟩
  have hbits : (n + 128) % 0x40 = n := by omega
  cases howed : g.owed <;> simp only [Reading.step, if_pos hbounds, hv, hbits, howed]

/-- A byte goes on with a character that has no narrower bounds. -/
theorem step_of_unbounded {bits owed : Nat} (hn : n < 64) :
    Reading.step { text, begun := some { bits, owed } } (UInt8.ofNat (n + 128)) =
      match owed with
      | 0 => { text := text.push (Char.ofNat (0x40 * bits + n)) }
      | owed + 1 => { text, begun := some { bits := 0x40 * bits + n, owed } } :=
  step_of_within hn (Nat.le_add_left 128 _) (show n + 128 ≤ 191 by omega)

private theorem foldl_step_two {v : Nat} (hl : 0x80 ≤ v) (hv : v ≤ 0x7ff) :
    [UInt8.ofNat (v / 64 % 32 + 192), UInt8.ofNat (v % 64 + 128)].foldl Reading.step { text } =
      { text := text.push (Char.ofNat v) } := by
  have hall : 0x40 * (v / 64 % 32) + v % 64 = v := by omega
  rw [List.foldl_cons, List.foldl_cons, List.foldl_nil, step_between,
    first_of_two (by omega) (by omega), step_of_unbounded (by omega)]
  dsimp only
  rw [hall]

private theorem foldl_step_three {v : Nat} (hl : 0x800 ≤ v) (hv : v ≤ 0xffff)
    (hs : v < 0xd800 ∨ 0xdfff < v) :
    [UInt8.ofNat (v / 4096 % 16 + 224), UInt8.ofNat (v / 64 % 64 + 128),
      UInt8.ofNat (v % 64 + 128)].foldl Reading.step { text } =
      { text := text.push (Char.ofNat v) } := by
  have hall : 0x40 * (0x40 * (v / 4096 % 16) + v / 64 % 64) + v % 64 = v := by omega
  have hlow : (if v / 4096 % 16 = 0 then 0xa0 else 0x80 : UInt8).toNat ≤ v / 64 % 64 + 128 := by
    split
    · show 160 ≤ _
      omega
    · exact Nat.le_add_left 128 _
  have hhigh : v / 64 % 64 + 128 ≤ (if v / 4096 % 16 = 13 then 0x9f else 0xbf : UInt8).toNat := by
    split
    · show _ ≤ 159
      omega
    · show _ ≤ 191
      omega
  rw [List.foldl_cons, List.foldl_cons, List.foldl_cons, List.foldl_nil, step_between,
    first_of_three (by omega), step_of_within (by omega) hlow hhigh]
  dsimp only
  rw [step_of_unbounded (by omega)]
  dsimp only
  rw [hall]

private theorem foldl_step_four {v : Nat} (hl : 0x10000 ≤ v) (hv : v < 0x110000) :
    [UInt8.ofNat (v / 262144 % 8 + 240), UInt8.ofNat (v / 4096 % 64 + 128),
      UInt8.ofNat (v / 64 % 64 + 128), UInt8.ofNat (v % 64 + 128)].foldl Reading.step { text } =
      { text := text.push (Char.ofNat v) } := by
  have hall : 0x40 * (0x40 * (0x40 * (v / 262144 % 8) + v / 4096 % 64) + v / 64 % 64) +
      v % 64 = v := by omega
  have hlow : (if v / 262144 % 8 = 0 then 0x90 else 0x80 : UInt8).toNat ≤ v / 4096 % 64 + 128 := by
    split
    · show 144 ≤ _
      omega
    · exact Nat.le_add_left 128 _
  have hhigh : v / 4096 % 64 + 128 ≤ (if v / 262144 % 8 = 4 then 0x8f else 0xbf : UInt8).toNat := by
    split
    · show _ ≤ 143
      omega
    · show _ ≤ 191
      omega
  rw [List.foldl_cons, List.foldl_cons, List.foldl_cons, List.foldl_cons, List.foldl_nil,
    step_between, first_of_four (by omega), step_of_within (by omega) hlow hhigh]
  dsimp only
  rw [step_of_unbounded (by omega)]
  dsimp only
  rw [step_of_unbounded (by omega)]
  dsimp only
  rw [hall]

end Bytes

/-- The bytes of a character are read as that character. -/
theorem foldl_step_utf8EncodeChar (text : String) (c : Char) :
    (String.utf8EncodeChar c).foldl Reading.step { text } = { text := text.push c } := by
  have hchar : Char.ofNat c.val.toNat = c := Char.ofNat_toNat c
  have hvalid : c.val.toNat < 0xd800 ∨ 0xdfff < c.val.toNat ∧ c.val.toNat < 0x110000 := c.valid
  unfold String.utf8EncodeChar
  generalize c.val.toNat = v at *
  rw [← hchar]
  dsimp only
  split
  · next hv =>
    have hn : (UInt8.ofNat v).toNat = v := toNat_ofNat (by omega)
    have hb : UInt8.ofNat v < 0x80 := by
      rw [UInt8.lt_iff_toNat_lt, hn]
      exact Nat.lt_succ_of_le hv
    rw [List.foldl_cons, List.foldl_nil, step_ascii hb, hn]
  · split
    · exact foldl_step_two (by omega) ‹_›
    · split
      · exact foldl_step_three (by omega) ‹_› (by omega)
      · exact foldl_step_four (by omega) (by omega)

/-! ### Whole texts -/

/-- The bytes of a text are read as that text. -/
theorem decode_encode (cs : List Char) : (decode (encode cs)).toList = cs := by
  have hfold (text : String) : (cs.flatMap String.utf8EncodeChar).foldl Reading.step { text } =
      { text := text ++ String.ofList cs } := by
    induction cs generalizing text with
    | nil => simp
    | cons c cs ih =>
      rw [List.flatMap_cons, List.foldl_append, foldl_step_utf8EncodeChar, ih]
      congr 1
      apply String.toList_inj.mp
      simp
  rw [decode, encode_eq_flatMap]
  have h := hfold ""
  rw [h]
  simp [Reading.finish]

/-- Only one character begins with the bytes of the byte order mark. -/
theorem eq_mark_of_utf8EncodeChar {c : Char} {rest rest' : List UInt8}
    (h : String.utf8EncodeChar c ++ rest = 0xef :: 0xbb :: 0xbf :: rest') : c = '\uFEFF' := by
  have hchar : Char.ofNat c.val.toNat = c := Char.ofNat_toNat c
  have hvalid : c.val.toNat < 0xd800 ∨ 0xdfff < c.val.toNat ∧ c.val.toNat < 0x110000 := c.valid
  have hbyte {n : Nat} {b : UInt8} (hn : n < 256) (hb : UInt8.ofNat n = b) : n = b.toNat :=
    hb ▸ (toNat_ofNat hn).symm
  unfold String.utf8EncodeChar at h
  generalize c.val.toNat = v at *
  dsimp only at h
  split at h
  · have h₁ : v = 239 := hbyte (by omega) (List.cons.inj h).1
    omega
  · split at h
    · have h₁ : v / 64 % 32 + 192 = 239 := hbyte (by omega) (List.cons.inj h).1
      omega
    · split at h
      · obtain ⟨h₁, h⟩ := List.cons.inj h
        obtain ⟨h₂, h⟩ := List.cons.inj h
        have h₁ : v / 4096 % 16 + 224 = 239 := hbyte (by omega) h₁
        have h₂ : v / 64 % 64 + 128 = 187 := hbyte (by omega) h₂
        have h₃ : v % 64 + 128 = 191 := hbyte (by omega) (List.cons.inj h).1
        have hv : v = 0xfeff := by omega
        rw [← hchar, hv]
      · have h₁ : v / 262144 % 8 + 240 = 239 := hbyte (by omega) (List.cons.inj h).1
        omega

/-- A text that does not begin with a byte order mark keeps its bytes. -/
theorem dropMark_encode {cs : List Char} (h : cs.head? ≠ some '\uFEFF') :
    dropMark (encode cs) = encode cs := by
  unfold dropMark
  split
  · next rest he =>
    cases cs with
    | nil => cases he
    | cons c cs =>
      rw [encode_eq_flatMap, List.flatMap_cons] at he
      rw [eq_mark_of_utf8EncodeChar he] at h
      exact absurd rfl h
  · rfl

end Line21.Text.Utf8
