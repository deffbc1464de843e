import Chip8.Machine.Execute

/-!
The log of execution. A completed instruction logs one line that names its opcode and the values
it met, a skip a second line on how it went. A fault is announced instead; only the two block
transfers announce themselves before they start.
-/
namespace Chip8

namespace Instruction

/-- What an instruction says it does to the machine. -/
def describe (dice : Nat → Int) (m : Machine) : Instruction → String
  | .clear => "Clearing the screen."
  | .ret =>
    s!"Return from subroutine, continue at {Hexadecimal.integer (m.stack.headD 0)}."
  | .jump target => s!"Jump to address {Hexadecimal.integer target.val}."
  | .call target => s!"Call subroutine at address {Hexadecimal.integer target.val}."
  | .skipIfEqual x value =>
    s!"Skip next instruction if register {x.val}'s value ({m.register x}) is {value}."
  | .skipIfUnequal x value =>
    s!"Skip next instruction if register {x.val}'s value ({m.register x}) is not {value}."
  | .skipIfSame x y =>
    s!"Skip next instruction if register {x.val}'s value ({m.register x}) is equal to " ++
      s!"register {y.val}'s value ({m.register y})."
  | .skipIfDifferent x y =>
    s!"Skip next instruction if register {x.val}'s value ({m.register x}) is not equal to " ++
      s!"register {y.val}'s value ({m.register y})."
  | .set x value => s!"Set the value of register {x.val} to {value}."
  | .increase x value => s!"Add {value} to the value of register {x.val}."
  | .copy x y =>
    s!"Set the value of register {x.val} to the value of register {y.val} ({m.register y})."
  | .or x y =>
    s!"Set register {x.val} to the bitwise or of itself and register {y.val} " ++
      s!"({m.register x ||| m.register y})."
  | .and x y =>
    s!"Set register {x.val} to the bitwise and of itself and register {y.val} " ++
      s!"({m.register x &&& m.register y})."
  | .xor x y =>
    s!"Set register {x.val} to the bitwise xor of itself and register {y.val} " ++
      s!"({m.register x ^^^ m.register y})."
  | .add x y =>
    let a := m.register x
    let b := m.register y
    let carry := flagByte (decide (256 ≤ a.toNat + b.toNat))
    s!"Add register {y.val} to register {x.val} ({a} + {b} = {a + b}, carry = {carry})."
  | .sub x y =>
    let a := m.register x
    let b := m.register y
    let d := Difference.of a.toNat b.toNat
    s!"Subtract register {y.val} from register {x.val} " ++
      s!"({a} - {b} = {d.value}, not borrow = {flagByte d.noBorrow})."
  | .subFrom x y =>
    let a := m.register y
    let b := m.register x
    let d := Difference.of a.toNat b.toNat
    s!"Set register {x.val} to register {y.val} minus itself " ++
      s!"({a} - {b} = {d.value}, not borrow = {flagByte d.noBorrow})."
  | .shiftRight x y =>
    let s := m.shiftSource x y
    s!"Shift register {x.val} right by 1 " ++
      s!"({s} >> 1 = {s >>> 1}, previous least significant bit = {s &&& 1})."
  | .shiftLeft x y =>
    let s := m.shiftSource x y
    s!"Shift register {x.val} left by 1 " ++
      s!"({s} << 1 = {s <<< 1}, previous most significant bit = {s >>> 7})."
  | .setIndex value => s!"Set register I to {Hexadecimal.integer value.val}."
  | .jumpOffset base =>
    let x := m.jumpRegister base
    let offset := (m.register x).toNat
    let target := base.val + offset
    s!"Jump to the provided address plus the value of register {x.val} " ++
      s!"({Hexadecimal.integer base.val} + {Hexadecimal.integer offset} = " ++
      s!"{Hexadecimal.integer target})."
  | .random x mask =>
    s!"Set register {x.val} to a random number masked by the provided value " ++
      s!"({mask} & {dice m.draws} = {m.maskedDraw dice mask})."
  | .draw x y height =>
    let (column, row) := m.spriteOrigin x y
    let collision := flagByte (m.sketch x y height).1.unset
    s!"Drawing a sprite with a height of {height.val} from address " ++
      s!"{Hexadecimal.integer m.index} at ({column}, {row}), collision = {collision}."
  | .skipIfHeld x =>
    let code := m.register x
    s!"Skip next instruction if the key represented by the value of register {x.val} ({code}) " ++
      s!"is pressed ({truthWord (m.holds code)})."
  | .skipIfNotHeld x =>
    let code := m.register x
    s!"Skip next instruction if the key represented by the value of register {x.val} ({code}) " ++
      s!"is not pressed ({truthWord (m.holds code)})."
  | .getDelay x =>
    s!"Set the value of register {x.val} to the value of the delay timer ({m.delay})."
  | .awaitKey x =>
    match m.key with
    | none => s!"Waiting for a keypress to store in register {x.val}."
    | some key => s!"Storing the key {key.val} in register {x.val}."
  | .setDelay x =>
    s!"Set the value of the delay timer to the value of register {x.val} ({m.register x})."
  | .setSound x =>
    s!"Set the value of the sound timer to the value of register {x.val} ({m.register x})."
  | .addToIndex x =>
    let overflow := flagByte (decide (4096 ≤ m.raisedIndex x))
    s!"Add the value of register {x.val} to register I ({m.index} + {m.register x} = " ++
      s!"{m.raisedIndex x}, overflow = {overflow})."
  | .indexGlyph x =>
    let glyph := Font.address (Nibble.lower (m.register x).toNat)
    s!"Set register I to the address ({Hexadecimal.integer glyph}) of the hexadecimal sprite " ++
      s!"for register {x.val} ({m.register x})."
  | .storeDecimal x =>
    s!"Store the Binary Coded Decimal representation of register {x.val} ({m.register x}) at " ++
      s!"{Hexadecimal.integer m.index}."
  | .store x =>
    s!"Dumping registers 0 to {x.val} into memory, starting at {Hexadecimal.integer m.index}."
  | .load x =>
    s!"Loading registers 0 to {x.val} from memory, starting at {Hexadecimal.integer m.index}."

/-- The condition of a skip, `none` for other instructions. -/
def skips? (m : Machine) : Instruction → Option Bool
  | .skipIfEqual x value => some (m.register x == value)
  | .skipIfUnequal x value => some (m.register x != value)
  | .skipIfSame x y => some (m.register x == m.register y)
  | .skipIfDifferent x y => some (m.register x != m.register y)
  | .skipIfHeld x => some (m.holds (m.register x))
  | .skipIfNotHeld x => some (!m.holds (m.register x))
  | _ => none

/-- Whether the instruction announces itself before it starts. -/
def announced : Instruction → Bool
  | .store _ | .load _ => true
  | _ => false

/-- The lines that an instruction logs, given the fault that it ran into, if any. -/
def narrate (dice : Nat → Int) (m : Machine) (o : Opcode) (i : Instruction)
    (fault : Option Fault) : List Line :=
  let account := Line.debug s!"Execute Opcode {o.text}: {i.describe dice m}"
  match fault with
  | some fault => if i.announced then [account, fault.line] else [fault.line]
  | none =>
    match i.skips? m with
    | some true => [account, .debug "Instruction skipped."]
    | some false => [account, .debug "Instruction not skipped."]
    | none => [account]

end Instruction

end Chip8
