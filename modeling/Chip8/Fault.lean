import Chip8.Text.Numeral

/-!
What can go wrong in a machine, with the words that name each fault, and the lines of its log.
Faults of a running program stop the emulation; the others refuse a single request.
-/
namespace Chip8

inductive Fault where
  | stackUnderflow
  | stackOverflow
  /-- An access outside memory. -/
  | outOfRange (address : Int)
  /-- A game with more bytes than fit behind the start address. -/
  | gameTooLarge (size : Nat)
  /-- A key code outside the keypad. -/
  | invalidKey (key : Int)
  /-- A value that no memory cell can hold. -/
  | notByte (value : Int)
  /-- An opcode of fewer than two bytes. -/
  | shortOpcode
deriving DecidableEq, Repr

/-- The most subroutines that can be under way at once. -/
def stackCapacity : Nat := 32

/-- The number of bytes between the start address of games and the end of memory. -/
def gameCapacity : Nat := 3584

namespace Fault

def message : Fault → String
  | .stackUnderflow => "Tried to return from a subroutine when the stack is empty."
  | .stackOverflow =>
    s!"Tried to call a subroutine with {stackCapacity} subroutines already on the stack."
  | .outOfRange address => s!"Memory access out of range at address {Hexadecimal.integer address}."
  | .gameTooLarge size =>
    s!"Game is too large to fit in memory ({size} bytes, at most {gameCapacity} allowed)."
  | .invalidKey key => s!"Invalid key {key}, keys are in the range [0, 15]."
  | .notByte _ => "byte must be in range(0, 256)"
  | .shortOpcode => "index out of range"

/-- The faults that end the emulation of a game. -/
def StopsEmulation : Fault → Prop
  | .stackUnderflow | .stackOverflow | .outOfRange _ | .gameTooLarge _ => True
  | .invalidKey _ | .notByte _ | .shortOpcode => False

instance : DecidablePred StopsEmulation := fun f => by
  cases f <;> simp only [StopsEmulation] <;> infer_instance

end Fault

inductive Level where
  | debug
  | info
  | error
deriving DecidableEq, Repr

/-- The name of a level in a log. -/
def Level.name : Level → String
  | .debug => "DEBUG"
  | .info => "INFO"
  | .error => "ERROR"

/-- A line of the log. -/
structure Line where
  level : Level
  text : String
deriving DecidableEq, Repr

namespace Line

def debug (text : String) : Line := ⟨.debug, text⟩

def info (text : String) : Line := ⟨.info, text⟩

def error (text : String) : Line := ⟨.error, text⟩

end Line

/-- A truth value in a log. -/
def truthWord (b : Bool) : String := if b then "True" else "False"

/-- The line that announces a fault. -/
def Fault.line (f : Fault) : Line := .error f.message

end Chip8
