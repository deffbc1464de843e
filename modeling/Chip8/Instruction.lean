import Chip8.Opcode

/-!
The thirty-four instructions. `Instruction.ofOpcode?` reads an opcode and `Instruction.toOpcode`
writes one; every parameter nibble of a recognised opcode appears in its instruction, so reading
undoes writing and writing undoes reading.
-/
namespace Chip8

inductive Instruction where
  /-- Blank the screen. -/
  | clear
  /-- Continue at the address on top of the call stack. -/
  | ret
  | jump (target : Fin 4096)
  | call (target : Fin 4096)
  | skipIfEqual (x : Nibble) (value : UInt8)
  | skipIfUnequal (x : Nibble) (value : UInt8)
  | skipIfSame (x y : Nibble)
  | set (x : Nibble) (value : UInt8)
  /-- Add a constant; the flag register stays. -/
  | increase (x : Nibble) (value : UInt8)
  | copy (x y : Nibble)
  | or (x y : Nibble)
  | and (x y : Nibble)
  | xor (x y : Nibble)
  /-- Add register `y` to register `x`, with carry. -/
  | add (x y : Nibble)
  /-- Subtract register `y` from register `x`, with borrow. -/
  | sub (x y : Nibble)
  | shiftRight (x y : Nibble)
  /-- Put register `y` less register `x` into register `x`, with borrow. -/
  | subFrom (x y : Nibble)
  | shiftLeft (x y : Nibble)
  | skipIfDifferent (x y : Nibble)
  | setIndex (value : Fin 4096)
  /-- Jump to a base address plus a register. -/
  | jumpOffset (base : Fin 4096)
  | random (x : Nibble) (mask : UInt8)
  | draw (x y height : Nibble)
  | skipIfHeld (x : Nibble)
  | skipIfNotHeld (x : Nibble)
  | getDelay (x : Nibble)
  | awaitKey (x : Nibble)
  | setDelay (x : Nibble)
  | setSound (x : Nibble)
  | addToIndex (x : Nibble)
  /-- Point the index at the glyph of a hexadecimal digit. -/
  | indexGlyph (x : Nibble)
  /-- Store the three decimal digits of register `x`. -/
  | storeDecimal (x : Nibble)
  /-- Store registers 0 to `x`. -/
  | store (x : Nibble)
  /-- Load registers 0 to `x`. -/
  | load (x : Nibble)
deriving DecidableEq, Repr

namespace Instruction

/-- The instruction that an opcode spells, if any. -/
def ofOpcode? (o : Opcode) : Option Instruction :=
  match o.kind.val with
  | 0x0 =>
    if o.address.val = 0x0e0 then some .clear
    else if o.address.val = 0x0ee then some .ret
    else none
  | 0x1 => some (.jump o.address)
  | 0x2 => some (.call o.address)
  | 0x3 => some (.skipIfEqual o.x o.second)
  | 0x4 => some (.skipIfUnequal o.x o.second)
  | 0x5 => if o.n.val = 0 then some (.skipIfSame o.x o.y) else none
  | 0x6 => some (.set o.x o.second)
  | 0x7 => some (.increase o.x o.second)
  | 0x8 =>
    match o.n.val with
    | 0x0 => some (.copy o.x o.y)
    | 0x1 => some (.or o.x o.y)
    | 0x2 => some (.and o.x o.y)
    | 0x3 => some (.xor o.x o.y)
    | 0x4 => some (.add o.x o.y)
    | 0x5 => some (.sub o.x o.y)
    | 0x6 => some (.shiftRight o.x o.y)
    | 0x7 => some (.subFrom o.x o.y)
    | 0xe => some (.shiftLeft o.x o.y)
    | _ => none
  | 0x9 => if o.n.val = 0 then some (.skipIfDifferent o.x o.y) else none
  | 0xa => some (.setIndex o.address)
  | 0xb => some (.jumpOffset o.address)
  | 0xc => some (.random o.x o.second)
  | 0xd => some (.draw o.x o.y o.n)
  | 0xe =>
    match o.second.toNat with
    | 0x9e => some (.skipIfHeld o.x)
    | 0xa1 => some (.skipIfNotHeld o.x)
    | _ => none
  | _ =>
    match o.second.toNat with
    | 0x07 => some (.getDelay o.x)
    | 0x0a => some (.awaitKey o.x)
    | 0x15 => some (.setDelay o.x)
    | 0x18 => some (.setSound o.x)
    | 0x1e => some (.addToIndex o.x)
    | 0x29 => some (.indexGlyph o.x)
    | 0x33 => some (.storeDecimal o.x)
    | 0x55 => some (.store o.x)
    | 0x65 => some (.load o.x)
    | _ => none

/-- The only two-byte opcode of an instruction. -/
def toOpcode : Instruction → Opcode
  | .clear => .ofAddress 0x0 0x0e0
  | .ret => .ofAddress 0x0 0x0ee
  | .jump target => .ofAddress 0x1 target
  | .call target => .ofAddress 0x2 target
  | .skipIfEqual x value => .ofByte 0x3 x value
  | .skipIfUnequal x value => .ofByte 0x4 x value
  | .skipIfSame x y => .ofNibbles 0x5 x y 0x0
  | .set x value => .ofByte 0x6 x value
  | .increase x value => .ofByte 0x7 x value
  | .copy x y => .ofNibbles 0x8 x y 0x0
  | .or x y => .ofNibbles 0x8 x y 0x1
  | .and x y => .ofNibbles 0x8 x y 0x2
  | .xor x y => .ofNibbles 0x8 x y 0x3
  | .add x y => .ofNibbles 0x8 x y 0x4
  | .sub x y => .ofNibbles 0x8 x y 0x5
  | .shiftRight x y => .ofNibbles 0x8 x y 0x6
  | .subFrom x y => .ofNibbles 0x8 x y 0x7
  | .shiftLeft x y => .ofNibbles 0x8 x y 0xe
  | .skipIfDifferent x y => .ofNibbles 0x9 x y 0x0
  | .setIndex value => .ofAddress 0xa value
  | .jumpOffset base => .ofAddress 0xb base
  | .random x mask => .ofByte 0xc x mask
  | .draw x y height => .ofNibbles 0xd x y height
  | .skipIfHeld x => .ofByte 0xe x 0x9e
  | .skipIfNotHeld x => .ofByte 0xe x 0xa1
  | .getDelay x => .ofByte 0xf x 0x07
  | .awaitKey x => .ofByte 0xf x 0x0a
  | .setDelay x => .ofByte 0xf x 0x15
  | .setSound x => .ofByte 0xf x 0x18
  | .addToIndex x => .ofByte 0xf x 0x1e
  | .indexGlyph x => .ofByte 0xf x 0x29
  | .storeDecimal x => .ofByte 0xf x 0x33
  | .store x => .ofByte 0xf x 0x55
  | .load x => .ofByte 0xf x 0x65

theorem ofOpcode?_toOpcode (i : Instruction) : ofOpcode? i.toOpcode = some i := by
  cases i <;> simp only [toOpcode, ofOpcode?, Opcode.kind_ofNibbles, Opcode.kind_ofByte,
    Opcode.kind_ofAddress, Opcode.x_ofNibbles, Opcode.y_ofNibbles, Opcode.n_ofNibbles,
    Opcode.x_ofByte, Opcode.second_ofByte, Opcode.address_ofAddress] <;> rfl

/-- Each arm fixes the class of the opcode and at most one more parameter. -/
theorem eq_toOpcode_of_ofOpcode? {o : Opcode} {i : Instruction} (rest : o.rest = [])
    (h : ofOpcode? o = some i) : o = i.toOpcode := by
  have nibbles (k n : Nibble) (hk : o.kind.val = k.val) (hn : o.n.val = n.val) :
      o = .ofNibbles k o.x o.y n := by
    rw [← Fin.ext hk, ← Fin.ext hn]
    exact Opcode.eq_ofNibbles rest
  have byte (k : Nibble) (b : UInt8) (hk : o.kind.val = k.val) (hb : o.second.toNat = b.toNat) :
      o = .ofByte k o.x b := by
    rw [← Fin.ext hk, ← UInt8.toNat_inj.1 hb]
    exact Opcode.eq_ofByte rest
  have address (k : Nibble) (a : Fin 4096) (hk : o.kind.val = k.val)
      (ha : o.address.val = a.val) : o = .ofAddress k a := by
    rw [← Fin.ext hk, ← Fin.ext ha]
    exact Opcode.eq_ofAddress rest
  have := o.kind.isLt
  unfold ofOpcode? at h
  repeat' split at h
  all_goals cases h
  all_goals simp only [toOpcode]
  all_goals first
    | exact nibbles _ _ ‹_› (by first | assumption | rfl)
    | exact byte _ _ ‹_› (by first | assumption | rfl)
    | exact address _ _ ‹_› (by first | assumption | rfl)
    | exact byte 0xf _ (show _ = 15 by grind) ‹_›

/-- A two-byte opcode spells exactly the instruction that it is written for. -/
theorem ofOpcode?_eq_some_iff {o : Opcode} {i : Instruction} (rest : o.rest = []) :
    ofOpcode? o = some i ↔ o = i.toOpcode :=
  ⟨eq_toOpcode_of_ofOpcode? rest, fun h => h ▸ ofOpcode?_toOpcode i⟩

end Instruction

end Chip8
