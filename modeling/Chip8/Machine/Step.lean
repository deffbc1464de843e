import Chip8.Machine.Narration
import Chip8.Machine.State

/-!
One cycle of the machine: let the timers tick, fetch the opcode at the program counter, execute
it. `Operation` collects every request to a machine, so that histories are lists.
-/
namespace Chip8

namespace Machine

/-- Executes an opcode. An opcode that spells no instruction is logged and has no effect. -/
def perform (dice : Nat → Int) (m : Machine) (o : Opcode) : Outcome :=
  match Instruction.ofOpcode? o with
  | none => { machine := m, lines := [.error s!"Unimplemented / Invalid Opcode: {o.text}."] }
  | some i =>
    let out := i.execute dice m
    { out with lines := i.narrate dice m o out.fault }

/-- Executes the opcode in the first two of the given bytes. -/
def performBytes (dice : Nat → Int) (m : Machine) (bytes : List UInt8) : Outcome :=
  match Opcode.ofBytes? bytes with
  | none => { machine := m, fault := some .shortOpcode }
  | some o => m.perform dice o

/-- The opcode at the program counter. -/
def opcode (m : Machine) : Except Fault Opcode :=
  match m.memory.read m.counter with
  | .error fault => .error fault
  | .ok first =>
    match m.memory.read (m.counter + 1) with
    | .error fault => .error fault
    | .ok second => .ok { first, second }

/-- Moves the program counter past the opcode that it points at. -/
def advance (m : Machine) : Machine := { m with counter := m.counter + 2 }

/-- Reads the opcode at the program counter and executes it. -/
def cycle (dice : Nat → Int) (m : Machine) : Outcome :=
  match m.opcode with
  | .error fault => .refuse m fault
  | .ok o => m.advance.perform dice o

/-- One step at the given clock reading. -/
def step (dice : Nat → Int) (m : Machine) (now : Float) : Outcome :=
  let ticked := m.updateTimers now
  let out := ticked.machine.cycle dice
  { out with lines := ticked.lines ++ out.lines }

end Machine

/-- A request to a machine. Those that look at the clock carry its reading. -/
inductive Operation where
  | loadGame (game : List UInt8)
  | reset (now : Float)
  | loadFont
  | hold (key : Option Int)
  | updateTimers (now : Float)
  | takeRedraw
  | read (address : Int)
  | write (address value : Int)
  | step (now : Float)

/-- What a request does to a machine. -/
def Machine.apply (dice : Nat → Int) (m : Machine) : Operation → Outcome
  | .loadGame game => m.loadGame game
  | .reset now => m.reset now
  | .loadFont => { machine := m.loadFont }
  | .hold key => m.hold key
  | .updateTimers now => m.updateTimers now
  | .takeRedraw => { machine := m.takeRedraw.2 }
  | .read address =>
    match m.read address with
    | (.ok _, lines) => { machine := m, lines }
    | (.error fault, lines) => { machine := m, fault := some fault, lines }
  | .write address value => m.write address value
  | .step now => m.step dice now

/-- The machine after a history of requests, each continuing from what the one before left. -/
def Machine.after (dice : Nat → Int) (m : Machine) (history : List Operation) : Machine :=
  history.foldl (fun m operation => (m.apply dice operation).machine) m

end Chip8
