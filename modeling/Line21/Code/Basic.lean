import Line21.BytePair
import Line21.Screen.Memory

/-!
# What byte pairs say

A pair without parity bits is padding, part of an extended data packet, a code with an
effect on a receiver, or characters. The bits of the first byte tell codes of the two
channels apart; a pair is read into a `Code` before it is acted upon.

The characters that pairs put on the screen are the basic set, which is ASCII with ten places of
its own, sixteen special characters, and two extended sets of thirty-two. The tenth special
character is a space that the background shows through. The second byte of a control pair orders
a command; commands without effect on what is shown are all one.
-/

namespace Line21

/-! ### Character sets -/

namespace Charset

/-- The basic character of a byte from 0x20 to 0x7f. -/
def basic (b : UInt8) : Char :=
  match b with
  | 0x2a => 'á'
  | 0x5c => 'é'
  | 0x5e => 'í'
  | 0x5f => 'ó'
  | 0x60 => 'ú'
  | 0x7b => 'ç'
  | 0x7c => '÷'
  | 0x7d => 'Ñ'
  | 0x7e => 'ñ'
  | 0x7f => '█'
  | b => Char.ofNat b.toNat

/-- The sixteen special characters. -/
def specials : Vector Char 16 :=
  #v['®', '°', '½', '¿', '™', '¢', '£', '♪', 'à', ' ', 'è', 'â', 'ê', 'î', 'ô', 'û']

/-- The extended characters for Spanish and French. -/
def spanishFrench : Vector Char 32 :=
  #v['Á', 'É', 'Ó', 'Ú', 'Ü', 'ü', '‘', '¡', '*', '’', '—', '©', '℠', '•', '“', '”',
     'À', 'Â', 'Ç', 'È', 'Ê', 'Ë', 'ë', 'Î', 'Ï', 'ï', 'Ô', 'Ù', 'ù', 'Û', '«', '»']

/-- The extended characters for Portuguese and German, with corners of boxes. -/
def portugueseGerman : Vector Char 32 :=
  #v['Ã', 'ã', 'Í', 'Ì', 'ì', 'Ò', 'ò', 'Õ', 'õ', '{', '}', '\\', '^', '_', '¦', '~',
     'Ä', 'ä', 'Ö', 'ö', 'ß', '¥', '¤', '|', 'Å', 'å', 'Ø', 'ø', '┌', '┐', '└', '┘']

/-- The special character that a second byte picks. -/
def special (b : UInt8) : Char := specials.get ⟨b.toNat % 16, by omega⟩

/-- The extended character that a pair picks: the low bit of the first byte chooses the set. -/
def extended (p : BytePair) : Char :=
  let i : Fin 32 := ⟨p.second.toNat % 32, by omega⟩
  if p.first &&& 1 = 0 then spanishFrench.get i else portugueseGerman.get i

/-- The one or two basic characters of a pair; a second byte below 0x20 adds none. -/
def basicPair (p : BytePair) : List Char :=
  let second := p.second &&& 0x7f
  basic p.first :: if 0x20 ≤ second then [basic second] else []

end Charset

/-! ### Control commands -/

/-- An order to the receiver. -/
inductive Command
  /-- Write into the hidden memory from now on. -/
  | resumeLoading
  /-- Take back the last character. -/
  | backspace
  /-- Erase from the cursor to the end of its row. -/
  | eraseToEnd
  /-- Write into the shown memory, in a window that rolls up. -/
  | rollUp (depth : Depth)
  /-- Write into the shown memory from now on. -/
  | resumeDirect
  /-- Hand over to the text service, which shows nothing here. -/
  | resumeText
  /-- Erase the shown memory. -/
  | eraseShown
  /-- Roll the window up by a row. -/
  | carriageReturn
  /-- Erase the hidden memory. -/
  | eraseHidden
  /-- Show the hidden memory. -/
  | endCaption
  /-- A command without effect on what is shown. -/
  | none
  deriving DecidableEq, Repr

/-- The command of the second byte of a control pair. Restarting the text service and
resuming it are alike. -/
def Command.ofByte (b : UInt8) : Command :=
  match b with
  | 0x20 => .resumeLoading
  | 0x21 => .backspace
  | 0x24 => .eraseToEnd
  | 0x25 => .rollUp .two
  | 0x26 => .rollUp .three
  | 0x27 => .rollUp .four
  | 0x29 => .resumeDirect
  | 0x2a => .resumeText
  | 0x2b => .resumeText
  | 0x2c => .eraseShown
  | 0x2d => .carriageReturn
  | 0x2e => .eraseHidden
  | 0x2f => .endCaption
  | _ => .none

/-! ### Codes -/

/-- What a pair says. -/
inductive Code
  /-- Nothing. -/
  | padding
  /-- Part of an extended data packet: its start or, when it ends the packet, its end. -/
  | packet (ends : Bool)
  /-- An order. -/
  | control (channel : Channel) (command : Command)
  /-- Move the cursor right by one to three columns. -/
  | tab (channel : Channel) (columns : Nat)
  /-- Move the cursor; codes that name no row move it nowhere. -/
  | preamble (channel : Channel) (row : Option Row) (column : Column)
  /-- A change of style, which takes the room of a space. -/
  | midRow (channel : Channel)
  /-- One of the special characters. -/
  | special (char : Char)
  /-- A character that replaces the one before it. -/
  | extended (char : Char)
  /-- One or two basic characters. -/
  | basic (chars : List Char)
  /-- Nothing that is known. -/
  | unknown
  deriving DecidableEq, Repr

namespace BytePair

/-- The row of a preamble, from the low three bits of the first byte and bit 5 of the second. -/
def preambleRow (p : BytePair) : Option Row :=
  let rows : Vector (Option Row) 16 :=
    #v[some 10, none, some 0, some 1, some 2, some 3, some 11, some 12, some 13, some 14,
       some 4, some 5, some 6, some 7, some 8, some 9]
  rows.get (Fin.ofNat 16 (2 * (p.first.toNat % 8) + p.second.toNat / 32 % 2))

/-- The column of a preamble: an indent in steps of four, if bit 4 of the second byte asks
for one. -/
def preambleColumn (p : BytePair) : Column :=
  if p.second &&& 0x10 = 0 then 0 else ⟨4 * (p.second.toNat / 2 % 8), by omega⟩

/-- The first byte belongs to an extended data packet. -/
def inPacket (p : BytePair) : Bool := 0x01 ≤ p.first && p.first ≤ 0x0f

/-- A control pair of either channel. -/
def isControl (p : BytePair) : Bool := p.first &&& 0x76 == 0x14 && p.second &&& 0x70 == 0x20

/-- A tab offset of either channel. -/
def isTab (p : BytePair) : Bool :=
  p.first &&& 0x77 == 0x17 && p.second &&& 0x7c == 0x20 && p.second &&& 0x03 != 0

/-- A preamble of either channel. -/
def isPreamble (p : BytePair) : Bool := p.first &&& 0x70 == 0x10 && p.second &&& 0x40 == 0x40

/-- A mid-row code of either channel. -/
def isMidRow (p : BytePair) : Bool := p.first &&& 0x77 == 0x11 && p.second &&& 0x70 == 0x20

/-- A special character of either channel. -/
def isSpecial (p : BytePair) : Bool := p.first &&& 0x77 == 0x11 && p.second &&& 0x70 == 0x30

/-- An extended character of either channel. -/
def isExtended (p : BytePair) : Bool := p.first &&& 0x76 == 0x12 && p.second &&& 0x60 == 0x20

/-- Basic characters. -/
def isBasic (p : BytePair) : Bool := 0x20 ≤ p.first

/-- What a pair without parity bits says. -/
def code (p : BytePair) : Code :=
  if p = zero then .padding
  else if p.inPacket then .packet (p.first == 0x0f)
  else if p.isControl then .control p.channel (Command.ofByte p.second)
  else if p.isTab then .tab p.channel (p.second.toNat % 4)
  else if p.isPreamble then .preamble p.channel p.preambleRow p.preambleColumn
  else if p.isMidRow then .midRow p.channel
  else if p.isSpecial then .special (Charset.special p.second)
  else if p.isExtended then .extended (Charset.extended p)
  else if p.isBasic then .basic (Charset.basicPair p)
  else .unknown

end BytePair

namespace Code

/-- Codes that are sent twice in a row for safety and count once. -/
def isDoubled : Code → Bool
  | .control .. | .tab .. | .preamble .. | .midRow _ | .special _ => true
  | _ => false

/-- Codes that end an extended data packet by themselves. -/
def interrupts : Code → Bool
  | .control .. | .preamble .. => true
  | _ => false

end Code

end Line21
