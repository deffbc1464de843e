import Chip8.Instruction
import Chip8.Machine.State

/-!
What each instruction does to a machine whose program counter has already moved past it. Random
numbers come from a given sequence, read at the position that the machine keeps. Flags are set
after results, so a result in the flag register is lost.
-/
namespace Chip8

/-- Draws the bytes at `count` addresses into the rows from `y` on. The bottom of the screen ends
the drawing, and so does the end of memory, which is a fault. -/
def Canvas.drawRows (memory : Memory) (x : Nat) (address : Int) (y : Nat) (c : Canvas) :
    Nat → Canvas × Option Fault
  | 0 => (c, none)
  | count + 1 =>
    if h : y < 32 then
      match memory.read address with
      | .error fault => (c, some fault)
      | .ok value => drawRows memory x (address + 1) (y + 1) (c.drawByte x ⟨y, h⟩ value) count
    else (c, none)

namespace Machine

/-- Moves past the next instruction if the condition holds. -/
def skipIf (m : Machine) (condition : Bool) : Machine :=
  if condition then { m with counter := m.counter + 2 } else m

/-- Whether the held key is the one whose code is in the byte. -/
def holds (m : Machine) (code : UInt8) : Bool := m.key.any fun key => key.val == code.toNat

/-- The byte that a shift of register `x` works on. -/
def shiftSource (m : Machine) (x y : Nibble) : UInt8 :=
  m.register (if m.settings.shiftsFromY then y else x)

/-- The register that the offset jump adds. -/
def jumpRegister (m : Machine) (base : Fin 4096) : Nibble :=
  if m.settings.jumpsByX then Nibble.upper (base.val / 16) else 0

/-- The random byte masked by `mask`. -/
def maskedDraw (dice : Nat → Int) (m : Machine) (mask : UInt8) : UInt8 :=
  mask &&& UInt8.ofNat (dice m.draws % 256).toNat

/-- The index after adding a register to it, within 16 bits. -/
def raisedIndex (m : Machine) (x : Nibble) : Int := (m.index + (m.register x).toNat) % 65536

/-- The hundreds, tens and units of a byte. -/
def decimalDigits (value : UInt8) : List UInt8 := [value / 100 % 10, value / 10 % 10, value % 10]

/-- The column and the row at which a sprite starts. -/
def spriteOrigin (m : Machine) (x y : Nibble) : Nat × Nat :=
  ((m.register x).toNat % 64, (m.register y).toNat % 32)

/-- Draws a sprite from memory at the index onto what the screen shows. -/
def sketch (m : Machine) (x y height : Nibble) : Canvas × Option Fault :=
  let (column, row) := m.spriteOrigin x y
  Canvas.drawRows m.memory column m.index row { screen := m.screen } height.val

/-- Draws a sprite. The flag goes down first. If memory ends on the way, the rows before are drawn,
but the flag stays down and no redraw is asked for. -/
def drawSprite (m : Machine) (x y height : Nibble) : Outcome :=
  let lowered := m.setFlag false
  match m.sketch x y height with
  | (canvas, some fault) =>
    { machine := { lowered with screen := canvas.screen }, fault := some fault }
  | (canvas, none) =>
    let drawn := { lowered with screen := canvas.screen }.setFlag canvas.unset
    { machine := { drawn with redraw := true } }

/-- Writes bytes to memory at the index. -/
def storeAtIndex (m : Machine) (values : List UInt8) : Outcome :=
  let (memory, fault) := m.memory.writeBlock m.index values
  { machine := { m with memory }, fault }

/-- Loads registers 0 to `x` from memory at the index. -/
def loadFromIndex (m : Machine) (x : Nibble) : Outcome :=
  let (values, fault) := m.memory.readBlock m.index (x.val + 1)
  { machine := m.loadRegisters values, fault }

end Machine

/-- The effect of an instruction. Lines are not part of it. -/
def Instruction.execute (dice : Nat → Int) (m : Machine) : Instruction → Outcome
  | .clear => { machine := { m with screen := .blank, redraw := true } }
  | .ret =>
    match m.stack with
    | [] => { machine := m, fault := some .stackUnderflow }
    | top :: below => { machine := { m with counter := top, stack := below } }
  | .jump target => { machine := { m with counter := target.val } }
  | .call target =>
    if m.stack.length ≥ stackCapacity then { machine := m, fault := some .stackOverflow }
    else { machine := { m with counter := target.val, stack := m.counter :: m.stack } }
  | .skipIfEqual x value => { machine := m.skipIf (m.register x == value) }
  | .skipIfUnequal x value => { machine := m.skipIf (m.register x != value) }
  | .skipIfSame x y => { machine := m.skipIf (m.register x == m.register y) }
  | .skipIfDifferent x y => { machine := m.skipIf (m.register x != m.register y) }
  | .set x value => { machine := m.setRegister x value }
  | .increase x value => { machine := m.setRegister x (m.register x + value) }
  | .copy x y => { machine := m.setRegister x (m.register y) }
  | .or x y => { machine := m.setRegister x (m.register x ||| m.register y) }
  | .and x y => { machine := m.setRegister x (m.register x &&& m.register y) }
  | .xor x y => { machine := m.setRegister x (m.register x ^^^ m.register y) }
  | .add x y =>
    let carry := decide (256 ≤ (m.register x).toNat + (m.register y).toNat)
    { machine := (m.setRegister x (m.register x + m.register y)).setFlag carry }
  | .sub x y =>
    let d := Difference.of (m.register x).toNat (m.register y).toNat
    { machine := (m.setRegister x d.value).setFlag d.noBorrow }
  | .subFrom x y =>
    let d := Difference.of (m.register y).toNat (m.register x).toNat
    { machine := (m.setRegister x d.value).setFlag d.noBorrow }
  | .shiftRight x y =>
    let s := m.shiftSource x y
    { machine := (m.setRegister x (s >>> 1)).setFlag (s &&& 1 != 0) }
  | .shiftLeft x y =>
    let s := m.shiftSource x y
    { machine := (m.setRegister x (s <<< 1)).setFlag (s >>> 7 != 0) }
  | .setIndex value => { machine := { m with index := value.val } }
  | .jumpOffset base =>
    { machine := { m with counter := base.val + (m.register (m.jumpRegister base)).toNat } }
  | .random x mask =>
    { machine := { m.setRegister x (m.maskedDraw dice mask) with draws := m.draws + 1 } }
  | .draw x y height => m.drawSprite x y height
  | .skipIfHeld x => { machine := m.skipIf (m.holds (m.register x)) }
  | .skipIfNotHeld x => { machine := m.skipIf (!m.holds (m.register x)) }
  | .getDelay x => { machine := m.setRegister x m.delay }
  | .awaitKey x =>
    match m.key with
    | none => { machine := { m with counter := m.counter - 2 } }
    | some key => { machine := m.setRegister x (UInt8.ofNat key.val) }
  | .setDelay x => { machine := { m with delay := m.register x } }
  | .setSound x => { machine := { m with sound := m.register x } }
  | .addToIndex x =>
    { machine := { m with index := m.raisedIndex x }.setFlag (decide (4096 ≤ m.raisedIndex x)) }
  | .indexGlyph x =>
    { machine := { m with index := Font.address (Nibble.lower (m.register x).toNat) } }
  | .storeDecimal x => m.storeAtIndex (Machine.decimalDigits (m.register x))
  | .store x => m.storeAtIndex (m.firstRegisters x)
  | .load x => m.loadFromIndex x

end Chip8
