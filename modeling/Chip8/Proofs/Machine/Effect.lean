import Chip8.Machine.Narration
import Chip8.Proofs.Memory.Block
import Chip8.Proofs.Screen.Picture

/-!
What an instruction does to one component of the machine at a time. Each component is a function
of the instruction that names the few instructions which touch it, and the lemma beside it says
that execution agrees. Invariants are proved from these and do not go through execution again.
-/
namespace Chip8

theorem Machine.length_firstRegisters (m : Machine) (x : Nibble) :
    (m.firstRegisters x).length = x.val + 1 := by
  simp only [firstRegisters, List.length_take, Vector.length_toList]
  omega

namespace Instruction

/-- Memory after execution, written as far as it goes. -/
def memoryAfter (m : Machine) : Instruction → Memory
  | .storeDecimal x => (m.memory.writeBlock m.index (Machine.decimalDigits (m.register x))).1
  | .store x => (m.memory.writeBlock m.index (m.firstRegisters x)).1
  | _ => m.memory

def indexAfter (m : Machine) : Instruction → Int
  | .setIndex value => value.val
  | .addToIndex x => m.raisedIndex x
  | .indexGlyph x => Font.address (Nibble.lower (m.register x).toNat)
  | _ => m.index

/-- The counter after execution on a machine whose counter has moved past the instruction. -/
def counterAfter (m : Machine) : Instruction → Int
  | .ret => m.stack.headD m.counter
  | .jump target => target.val
  | .call target => if m.stack.length ≥ stackCapacity then m.counter else target.val
  | .jumpOffset base => base.val + (m.register (m.jumpRegister base)).toNat
  | .awaitKey _ => if m.key = none then m.counter - 2 else m.counter
  | i => if i.skips? m = some true then m.counter + 2 else m.counter

def stackAfter (m : Machine) : Instruction → List Int
  | .ret => m.stack.tail
  | .call _ => if m.stack.length ≥ stackCapacity then m.stack else m.counter :: m.stack
  | _ => m.stack

def delayAfter (m : Machine) : Instruction → UInt8
  | .setDelay x => m.register x
  | _ => m.delay

def soundAfter (m : Machine) : Instruction → UInt8
  | .setSound x => m.register x
  | _ => m.sound

/-- The screen after execution, drawn on as far as memory went. -/
def screenAfter (m : Machine) : Instruction → Screen
  | .clear => .blank
  | .draw x y height => m.screen.xor (m.picture x y height)
  | _ => m.screen

/-- Only a sprite that was read to its end asks for the screen to be shown anew. -/
def redrawAfter (m : Machine) : Instruction → Bool
  | .clear => true
  | .draw _ y height => (m.memory.readBlock m.index (m.visibleRows y height)).2.isNone || m.redraw
  | _ => m.redraw

def drawsAfter (m : Machine) : Instruction → Nat
  | .random .. => m.draws + 1
  | _ => m.draws

/-- What stops an instruction on a machine whose index is not negative. -/
def faultOn (m : Machine) : Instruction → Option Fault
  | .ret => if m.stack = [] then some .stackUnderflow else none
  | .call _ => if m.stack.length ≥ stackCapacity then some .stackOverflow else none
  | .draw _ y height => Memory.blockFault m.index (m.visibleRows y height)
  | .storeDecimal _ => Memory.blockFault m.index 3
  | .store x => Memory.blockFault m.index (x.val + 1)
  | .load x => Memory.blockFault m.index (x.val + 1)
  | _ => none

variable (dice : Nat → Int) (m : Machine) (i : Instruction)

theorem skipIf_eq (condition : Bool) :
    m.skipIf condition = { m with counter := if condition then m.counter + 2 else m.counter } := by
  cases condition <;> rfl

/-- Execution component by component, registers apart. -/
theorem execute_machine : (i.execute dice m).machine =
    { (i.execute dice m).machine with
      settings := m.settings
      memory := i.memoryAfter m
      index := i.indexAfter m
      counter := i.counterAfter m
      stack := i.stackAfter m
      delay := i.delayAfter m
      sound := i.soundAfter m
      key := m.key
      screen := i.screenAfter m
      redraw := i.redrawAfter m
      lastTick := m.lastTick
      draws := i.drawsAfter m } := by
  cases i with
  | ret =>
    obtain ⟨settings, memory, registers, index, counter, stack⟩ := m
    cases stack <;> rfl
  | call target =>
    by_cases h : m.stack.length ≥ stackCapacity
    · simp only [execute, counterAfter, stackAfter, if_pos h]
      rfl
    · simp only [execute, counterAfter, stackAfter, if_neg h]
      rfl
  | draw x y height =>
    simp only [execute, Machine.drawSprite_eq_picture, redrawAfter]
    cases h : (m.memory.readBlock m.index (m.visibleRows y height)).2 <;> rfl
  | awaitKey x =>
    obtain ⟨settings, memory, registers, index, counter, stack, delay, sound, key⟩ := m
    cases key <;> rfl
  | skipIfEqual | skipIfUnequal | skipIfSame | skipIfDifferent | skipIfHeld | skipIfNotHeld =>
    simp only [execute, skipIf_eq, counterAfter, skips?, Option.some.injEq]
    rfl
  | _ => rfl

theorem execute_settings : (i.execute dice m).machine.settings = m.settings := by
  rw [execute_machine]

theorem execute_key : (i.execute dice m).machine.key = m.key := by
  rw [execute_machine]

theorem execute_lastTick : (i.execute dice m).machine.lastTick = m.lastTick := by
  rw [execute_machine]

theorem execute_memory : (i.execute dice m).machine.memory = i.memoryAfter m :=
  congrArg Machine.memory (execute_machine dice m i)

theorem execute_index : (i.execute dice m).machine.index = i.indexAfter m :=
  congrArg Machine.index (execute_machine dice m i)

theorem execute_counter : (i.execute dice m).machine.counter = i.counterAfter m :=
  congrArg Machine.counter (execute_machine dice m i)

theorem execute_stack : (i.execute dice m).machine.stack = i.stackAfter m :=
  congrArg Machine.stack (execute_machine dice m i)

theorem execute_delay : (i.execute dice m).machine.delay = i.delayAfter m :=
  congrArg Machine.delay (execute_machine dice m i)

theorem execute_sound : (i.execute dice m).machine.sound = i.soundAfter m :=
  congrArg Machine.sound (execute_machine dice m i)

theorem execute_draws : (i.execute dice m).machine.draws = i.drawsAfter m :=
  congrArg Machine.draws (execute_machine dice m i)

theorem execute_screen : (i.execute dice m).machine.screen = i.screenAfter m :=
  congrArg Machine.screen (execute_machine dice m i)

theorem execute_redraw : (i.execute dice m).machine.redraw = i.redrawAfter m :=
  congrArg Machine.redraw (execute_machine dice m i)

variable {m} in
theorem execute_fault (h : 0 ≤ m.index) : (i.execute dice m).fault = i.faultOn m := by
  cases i with
  | ret =>
    obtain ⟨settings, memory, registers, index, counter, stack⟩ := m
    cases stack <;> rfl
  | call target =>
    simp only [execute, faultOn]
    split <;> rfl
  | draw x y height =>
    rw [faultOn, ← m.memory.readBlock_fault h]
    simp only [execute, Machine.drawSprite_eq_picture]
    cases (m.memory.readBlock m.index (m.visibleRows y height)).2 <;> rfl
  | awaitKey x =>
    simp only [execute, faultOn]
    split <;> rfl
  | storeDecimal x => exact m.memory.writeBlock_fault h (Machine.decimalDigits (m.register x))
  | store x =>
    rw [faultOn, ← m.length_firstRegisters x]
    exact m.memory.writeBlock_fault h (m.firstRegisters x)
  | load x => exact m.memory.readBlock_fault h (x.val + 1)
  | _ => rfl

end Instruction

end Chip8
