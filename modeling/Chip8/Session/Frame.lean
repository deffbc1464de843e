import Chip8.Session.Load

/-!
One frame of a session: the events that wait are handled, the machine executes the instructions
of a frame, the screen is shown if it has to be, and the buzzer follows the sound timer. Any
breakdown ends the frame where it happens.
-/
namespace Chip8.Session

/-- The key that opens the file picker. -/
def reloadKey : Int := 'l'.toNat

/-- Handles events in order, and then lets the machine know which key is held. -/
def handle (w : World) (s : Session) (keypad : Keypad) :
    List Event → Session × Option Breakdown
  | [] => ({ s with keypad := some keypad }.adopt (s.machine.hold (keypad.code)), none)
  | event :: rest =>
    if event = .quit then handle w { s with running := false } keypad rest
    else if event = .keyDown reloadKey then
      match s.load w none with
      | (s, .error breakdown) => ({ s with keypad := some keypad }, some breakdown)
      | (s, .ok _) => handle w s keypad rest
    else handle w (s.log (Keypad.lines event)) (keypad.after event) rest

/-- Handles the events that wait. Without a keypad none is ever read. -/
def handleEvents (w : World) (s : Session) : Session × Option Breakdown :=
  match s.keypad with
  | none => (s, none)
  | some keypad => handle w { s with queue := [] } keypad s.queue

/-- Lets the machine take steps, up to the first that is faulty. -/
def takeSteps (w : World) (s : Session) : Nat → Session × Option Breakdown
  | 0 => (s, none)
  | count + 1 =>
    let out := s.machine.step w.dice s.reading
    match out.fault with
    | some fault => (s.look.adopt out, some (.fault fault))
    | none => (s.look.adopt out).takeSteps w count

@[simp] theorem takeSteps_zero (w : World) (s : Session) : s.takeSteps w 0 = (s, none) := rfl

theorem takeSteps_succ (w : World) (s : Session) (count : Nat) : s.takeSteps w (count + 1) =
    match (s.machine.step w.dice s.reading).fault with
    | some fault => (s.look.adopt (s.machine.step w.dice s.reading), some (.fault fault))
    | none => (s.look.adopt (s.machine.step w.dice s.reading)).takeSteps w count := (rfl)

/-- Shows the screen if the machine asks for it. -/
def refresh (s : Session) : Session :=
  let (wanted, machine) := s.machine.takeRedraw
  let s := { s with machine }
  if wanted then s.present (.frame machine.screen) else s

def frame (w : World) (s : Session) : Session × Option Breakdown :=
  match s.handleEvents w with
  | (s, some breakdown) => (s, some breakdown)
  | (s, none) =>
    match s.takeSteps w (if s.loaded then s.pace else 0) with
    | (s, some breakdown) => (s, some breakdown)
    | (s, none) =>
      let s := s.refresh
      (s.sound s.machine.bell, none)

end Chip8.Session
