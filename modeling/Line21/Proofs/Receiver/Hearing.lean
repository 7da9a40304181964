import Line21.Proofs.Receiver.Deeds

/-!
# Bare receivers hear what receivers hear

Commands, codes and pairs are heard by a bare receiver as they are by the receiver whose bare form
it is, and without a stop. Main statement: receiving the number of a pair in a bare form is
receiving the pair; only a pair without its parity stops it, and that before anything changes.
-/

namespace Line21

open Bare (Deed)

namespace Bare.Deed

variable {r : Receiver}

/-! ### Commands -/

private theorem takes_obey (r : Receiver) {b : UInt8} (h : b &&& 0x7f = b ∧ b &&& 0x70 = 0x20) :
    (Bare.obey b.toNat).Takes r (r.obey (.ofByte b)).2 (r.obey (.ofByte b)).1 := by
  have hb := BytePair.byte_cases (fun b ↦ b &&& 0x7f = b ∧ b &&& 0x70 = 0x20 →
    b = 0x20 ∨ b = 0x21 ∨ b = 0x22 ∨ b = 0x23 ∨ b = 0x24 ∨ b = 0x25 ∨ b = 0x26 ∨ b = 0x27 ∨
    b = 0x28 ∨ b = 0x29 ∨ b = 0x2a ∨ b = 0x2b ∨ b = 0x2c ∨ b = 0x2d ∨ b = 0x2e ∨ b = 0x2f)
    (by decide +kernel) b h
  have hquiet {x : Deed Unit} {r' : Receiver} (hx : x.Takes r () r') :
      (do x; return Moment.quiet : Deed Moment).Takes r .quiet r' := hx.bind (takes_pure _ _)
  rcases hb with rfl | rfl | rfl | rfl | rfl | rfl | rfl | rfl | rfl | rfl | rfl | rfl | rfl |
    rfl | rfl | rfl
  · exact hquiet (takes_modify rfl)
  · exact hquiet (takes_backspace r)
  · exact takes_pure r Moment.quiet
  · exact takes_pure r Moment.quiet
  · exact hquiet (takes_eraseToEnd r)
  · exact hquiet (takes_modify rfl)
  · exact hquiet (takes_modify rfl)
  · exact hquiet (takes_modify rfl)
  · exact takes_pure r Moment.quiet
  · exact hquiet (takes_modify rfl)
  · exact hquiet (takes_modify rfl)
  · exact hquiet (takes_modify rfl)
  -- From 0x2c on a memory is emptied or rolled up.
  · have hm : r.bare.shown.map (·.map fun _ ↦ none) = Memory.empty.grid := r.shown.map_grid
    exact (takes_modify (congrArg (fun shown ↦ { r.bare with shown }) hm)).bind
      (takes_pure _ Moment.cleared)
  · have hr : (r.obey .carriageReturn).2 = .quiet := by
      rw [Receiver.obey]
      split <;> rfl
    have ht : (Bare.obey 0x2d).Takes r .quiet (r.obey .carriageReturn).1 :=
      hquiet (takes_carriageReturn r)
    rw [← hr] at ht
    exact ht
  · have hm : r.bare.hidden.map (·.map fun _ ↦ none) = Memory.empty.grid := r.hidden.map_grid
    exact hquiet (takes_modify (congrArg (fun hidden ↦ { r.bare with hidden }) hm))
  · have hm : Bare.emptyGrid = Memory.empty.grid := Memory.grid_empty.symm
    exact (takes_modify (congrArg
      (fun hidden ↦ { r.bare with shown := r.bare.hidden, hidden, displayed := true }) hm)).bind
      (takes_pure _ Moment.shown)

/-! ### Codes -/

/-- The channel that a code selects is selected. -/
theorem takes_select (r : Receiver) (channel : Channel) :
    (modify fun b ↦ { b with channel := channel.number } : Deed Unit).Takes r ()
      { r with channel } := takes_modify rfl

private theorem takes_moveTo (r : Receiver) (p : BytePair) :
    (Bare.moveTo p.toNat).Takes r () (p.preambleRow.elim r fun row ↦
      { r with row, column := p.preambleColumn }) := by
  refine (takes_look r p.getElem?_rowTable).bind ?_
  cases p.preambleRow with
  | none => exact takes_pure r ()
  | some row =>
    have hrow : ¬ (row.val : Int) < 0 := Int.not_lt.mpr (Int.natCast_nonneg _)
    rw [Option.elim_some, if_neg hrow, BytePair.columnOf_toNat]
    exact takes_modify rfl

private theorem takes_basicChars (r : Receiver) {p : BytePair} (hl : p.isBasic = true)
    (hu : p.first.toNat < 0x80) :
    (Bare.basicChars p.toNat).Takes r (Charset.basicPair p) r := by
  have hl : 0x20 ≤ p.first.toNat := UInt8.le_iff_toNat_le.mp (of_decide_eq_true hl)
  have hsecond : p.toNat &&& 0x7f = (p.second &&& 0x7f).toNat := p.toNat_and_second 0x7f
  have hfirst : ((p.first.toNat : Int) - 0x20) = (p.first.toNat - 0x20 : Nat) :=
    (Int.ofNat_sub hl).symm
  rw [Bare.basicChars, BytePair.toNat_shiftRight, hsecond, hfirst]
  refine (takes_look r (BytePair.getElem?_basics hl hu)).bind ?_
  have hle : 0x20 ≤ p.second &&& 0x7f ↔ 0x20 ≤ (p.second &&& 0x7f).toNat :=
    UInt8.le_iff_toNat_le
  rw [Charset.basicPair]
  by_cases hs : 0x20 ≤ (p.second &&& 0x7f).toNat
  · have hu : (p.second &&& 0x7f).toNat < 0x80 := Nat.lt_succ_of_le Nat.and_le_right
    have hplace : (((p.second &&& 0x7f).toNat : Int) - 0x20) =
        ((p.second &&& 0x7f).toNat - 0x20 : Nat) := (Int.ofNat_sub hs).symm
    rw [if_pos hs, if_pos (hle.mpr hs), hplace]
    exact (takes_look r (BytePair.getElem?_basics hs hu)).bind (takes_pure r _)
  · rw [if_neg hs, if_neg (mt hle.mp hs)]
    exact takes_pure r _

/-- A deed does what a code does. -/
def Acts (x : Deed Moment) (r : Receiver) (c : Code) : Prop := x.Takes r (r.act c).2 (r.act c).1

/-- What is done and what a code is may hang on the same. -/
theorem acts_ite {c : Bool} {x y : Deed Moment} {a b : Code} (hx : c = true → x.Acts r a)
    (hy : y.Acts r b) : (if c then x else y).Acts r (if c then a else b) := by
  cases c with
  | true => exact hx rfl
  | false => exact hy

private theorem acts_control (r : Receiver) {p : BytePair} (hs : p.stripped = p)
    (hp : p.isControl = true) :
    (Bare.control p.toNat).Acts r (.control p.channel (.ofByte p.second)) := by
  have hsecond : p.second &&& 0x70 = 0x20 := eq_of_beq ((Bool.and_eq_true_iff.mp hp).2)
  have hstripped : p.second &&& 0x7f = p.second := congrArg BytePair.second hs
  rw [Bare.control, p.toNat_and_ff, p.channelOf_toNat]
  refine (takes_select r p.channel).bind ?_
  cases p.channel with
  | one => exact takes_obey _ ⟨hstripped, hsecond⟩
  | two => exact takes_pure _ Moment.quiet

private theorem acts_tab (r : Receiver) (p : BytePair) :
    (Bare.tab p.toNat).Acts r (.tab p.channel (p.second.toNat % 4)) := by
  have hlow : p.toNat &&& 0x0003 = p.second.toNat % 4 := p.toNat_and_low (b := 2) (by decide)
  have hc : p.channel.number = r.bare.channel ∧ r.bare.channel = 1 ↔
      p.channel = .one ∧ r.channel = .one := by
    have hr : r.bare.channel = r.channel.number := rfl
    rw [hr]
    cases p.channel <;> cases r.channel <;> decide
  rw [Bare.tab, hlow, p.channelOf_toNat]
  refine (takes_get r).bind ?_
  rw [Receiver.act]
  by_cases h : p.channel = .one ∧ r.channel = .one
  · rw [if_pos (hc.mpr h), if_pos h]
    exact (takes_moveOn r _).bind (takes_pure _ Moment.quiet)
  · rw [if_neg (mt hc.mp h), if_neg h]
    exact takes_pure r Moment.quiet

private theorem acts_preamble (r : Receiver) (p : BytePair) :
    (Bare.preamble p.toNat).Acts r (.preamble p.channel p.preambleRow p.preambleColumn) := by
  rw [Bare.preamble, p.channelOf_toNat]
  refine (takes_select r p.channel).bind ?_
  cases p.channel with
  | one =>
    have hact : r.act (.preamble .one p.preambleRow p.preambleColumn) =
        (p.preambleRow.elim { r with channel := .one } fun row ↦
          { r with channel := .one, row, column := p.preambleColumn }, .quiet) := by
      cases p.preambleRow <;> rfl
    rw [hact]
    exact (takes_moveTo { r with channel := .one } p).bind (takes_pure _ Moment.quiet)
  | two => exact takes_pure _ Moment.quiet

private theorem acts_midRow (r : Receiver) (p : BytePair) :
    (Bare.midRow p.toNat).Acts r (.midRow p.channel) := by
  rw [Bare.midRow, p.channelOf_toNat]
  refine (takes_select r p.channel).bind ?_
  cases p.channel with
  | one => exact takes_write _ [' ']
  | two => exact takes_pure _ Moment.quiet

private theorem acts_characters (hc : r.channel = .one) {p : BytePair} (hu : p.first.toNat < 0x80) :
    (Bare.characters p.toNat).Acts r
      (if p.isSpecial then .special (Charset.special p.second)
        else if p.isExtended then .extended (Charset.extended p)
        else if p.isBasic then .basic (Charset.basicPair p)
        else .unknown) := by
  rw [Bare.characters, p.isSpecial_toNat, p.isExtended_toNat, p.isBasic_toNat]
  refine acts_ite (fun _ ↦ ?_) (acts_ite (fun _ ↦ ?_) (acts_ite (fun hb ↦ ?_) ?_))
  · rw [Acts, Receiver.act, if_pos hc]
    exact (takes_look r p.getElem?_specials).bind (takes_write r _)
  · rw [Acts, Receiver.act, if_pos hc]
    exact (takes_backspace r).bind ((takes_look _ p.getElem?_extended).bind (takes_write _ _))
  · rw [Acts, Receiver.act, if_pos hc]
    exact (takes_basicChars r hb hu).bind (takes_write r _)
  · exact takes_pure r Moment.quiet

/-- A pair that belongs to no packet can be acted upon. -/
theorem acts_code (r : Receiver) {p : BytePair} (hz : p ≠ .zero) (hp : p.inPacket = false)
    (hs : p.stripped = p) : (Bare.act p.toNat).Acts r p.code := by
  have hu : p.first.toNat < 0x80 := by
    rw [← hs]
    exact Nat.lt_succ_of_le Nat.and_le_right
  rw [BytePair.code, if_neg hz, hp, Bare.act, p.isControl_toNat, p.isTab_toNat, p.isPreamble_toNat,
    p.isMidRow_toNat]
  refine acts_ite (acts_control r hs) (acts_ite (fun _ ↦ acts_tab r p) (acts_ite
    (fun _ ↦ acts_preamble r p) (acts_ite (fun _ ↦ acts_midRow r p) ((takes_get r).bind ?_))))
  have hb : r.bare.channel = 1 ↔ r.channel = .one := Channel.number_eq_one_iff
  by_cases hc : r.channel = .one
  · rw [if_pos (hb.mpr hc)]
    exact acts_characters hc hu
  · have hquiet {c : Code} (h : r.act c = (r, .quiet)) :
        (pure Moment.quiet : Deed Moment).Acts r c := by
      rw [Acts, h]
      exact takes_pure r Moment.quiet
    rw [if_neg (mt hb.mp hc)]
    split
    · exact hquiet (if_neg hc)
    · split
      · exact hquiet (if_neg hc)
      · split
        · exact hquiet (if_neg hc)
        · exact hquiet rfl

/-! ### Pairs -/

private theorem isDoubled_toNat {p : BytePair} (hz : p ≠ .zero) (hp : p.inPacket = false) :
    Bare.isDoubled p.toNat = p.code.isDoubled := by
  rw [Bare.isDoubled, p.isControl_toNat, p.isTab_toNat, p.isPreamble_toNat, p.isMidRow_toNat,
    p.isSpecial_toNat, BytePair.code, if_neg hz, hp]
  grind [Code.isDoubled]

/-- A pair that belongs to no packet can be heard. -/
theorem takes_hear (r : Receiver) {p : BytePair} (hz : p ≠ .zero) (hp : p.inPacket = false)
    (hs : p.stripped = p) : (Bare.hear p.toNat).Takes r (r.hear p).2 (r.hear p).1 := by
  have hl : (Bare.isDoubled p.toNat && p.toNat == r.bare.last) = true ↔
      p.code.isDoubled = true ∧ p = r.last := by
    have hb : r.bare.last = r.last.toNat := rfl
    rw [isDoubled_toNat hz hp, hb, BytePair.toNat_beq, Bool.and_eq_true, decide_eq_true_iff]
  refine (takes_get r).bind ?_
  rw [Receiver.hear]
  by_cases h : p.code.isDoubled = true ∧ p = r.last
  · rw [if_pos (hl.mpr h), if_pos h]
    exact (takes_modify rfl).bind (takes_pure _ Moment.quiet)
  · rw [if_neg (mt hl.mp h), if_neg h]
    have hkeep : (modify fun b ↦ { b with last := p.toNat } : Deed Unit).Takes r ()
        { r with last := p } := takes_modify rfl
    exact hkeep.bind (acts_code _ hz hp hs)

private theorem takes_leave (r : Receiver) :
    (modify fun b ↦ { b with inPacket := false } : Deed Unit).Takes r ()
      { r with inPacket := false } := takes_modify rfl

private theorem takes_step_of_inside (hr : r.inPacket = true) {p : BytePair} (hz : p ≠ .zero)
    (hs : p.stripped = p) : (Bare.step p.toNat).Takes r (r.step p).2 (r.step p).1 := by
  have hb : r.bare.inPacket = true := hr
  refine (takes_get r).bind ?_
  rw [if_pos hb, p.isControl_toNat, p.isPreamble_toNat, p.endsPacket_toNat]
  cases hi : p.isControl || p.isPreamble with
  | true =>
    have hc := BytePair.interrupts_code_of_or (Bool.or_eq_true_iff.mp hi)
    have hp : p.inPacket = false := by
      rw [← Bool.not_eq_true]
      intro hp
      rw [BytePair.code_of_inPacket hp] at hc
      cases hc
    rw [if_pos rfl, Receiver.step_eq_hear (Receiver.admits_of_interrupts hc)]
    exact (takes_leave r).bind (takes_hear _ hz hp hs)
  | false =>
    rw [if_neg Bool.false_ne_true]
    cases he : p.endsPacket with
    | true =>
      rw [if_pos rfl, Receiver.step_of_inPacket (BytePair.inPacket_of_endsPacket he), he]
      exact (takes_leave r).bind (takes_pure _ Moment.quiet)
    | false =>
      have hf : p.fillsPacket = true := by
        rw [BytePair.fillsPacket, ← Bool.not_or, hi, he]
        rfl
      rw [if_neg Bool.false_ne_true, Receiver.step_of_fillsPacket hf hr]
      exact takes_pure r Moment.quiet

private theorem takes_step_of_outside (hr : r.inPacket = false) {p : BytePair} (hz : p ≠ .zero)
    (hs : p.stripped = p) : (Bare.step p.toNat).Takes r (r.step p).2 (r.step p).1 := by
  have hb : ¬ r.bare.inPacket = true := Bool.eq_false_iff.mp hr
  refine (takes_get r).bind ?_
  rw [if_neg hb, p.isPacket_toNat, p.endsPacket_toNat]
  cases hp : p.inPacket with
  | true =>
    rw [if_pos rfl, Receiver.step_of_inPacket hp]
    exact (takes_modify rfl).bind (takes_pure _ Moment.quiet)
  | false =>
    have ha : r.Admits p :=
      ⟨BytePair.isHeard_code hz hp, fun hi ↦ absurd hi (Bool.eq_false_iff.mp hr)⟩
    have hsame : { r with inPacket := false } = r := by rw [← hr]
    rw [if_neg Bool.false_ne_true, Receiver.step_eq_hear ha, hsame]
    exact takes_hear r hz hp hs

/-- A pair that is no padding can be heard. -/
theorem takes_step (r : Receiver) {p : BytePair} (hz : p ≠ .zero) (hs : p.stripped = p) :
    (Bare.step p.toNat).Takes r (r.step p).2 (r.step p).1 := by
  cases hr : r.inPacket with
  | true => exact takes_step_of_inside hr hz hs
  | false => exact takes_step_of_outside hr hz hs

private theorem takes_receive (r : Receiver) {p : BytePair} (h : p.parityHolds = true) :
    (Bare.receive p.toNat).Takes r (r.step p.stripped).2 (r.step p.stripped).1 := by
  have hstripped : p.toNat &&& 0x7f7f = p.stripped.toNat := p.toNat_and ⟨0x7f, 0x7f⟩
  rw [Bare.receive, p.hasOddBits_toNat, if_pos h, hstripped]
  by_cases hz : p.stripped = .zero
  · rw [if_pos (p.stripped.toNat_eq_zero_iff.mpr hz), hz]
    exact takes_pure r Moment.quiet
  · rw [if_neg (mt p.stripped.toNat_eq_zero_iff.mp hz)]
    exact takes_step r hz p.stripped_stripped

end Bare.Deed

namespace Receiver

/-- What a receiver makes of a pair, a bare receiver makes of its number. -/
theorem receive_bare (r : Receiver) (p : BytePair) :
    Bare.receive p.toNat r.bare =
      match r.receive p with
      | .ok (r', moment) => .ok moment r'.bare
      | .error e => .error (.parity e.pair.toNat) r.bare := by
  cases hp : p.parityHolds with
  | true =>
    rw [receive, if_pos hp]
    exact Bare.Deed.takes_receive r hp
  | false =>
    have hb : ¬ p.parityHolds = true := Bool.eq_false_iff.mp hp
    rw [receive, if_neg hb, Bare.receive, p.hasOddBits_toNat, if_neg hb]
    rfl

end Receiver

end Line21
