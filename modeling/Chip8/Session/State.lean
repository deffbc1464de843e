import Chip8.Game.Cartridge
import Chip8.Keypad
import Chip8.Machine.Step
import Chip8.Sound.Buzzer

/-!
A session: a machine with what surrounds it, that is a keypad and a buzzer if there are any, the
events not yet read, the answers that the file picker will give, the readings of the clock, and
the journal of all effects. The display is no part of it, as a session only says what is to be
shown.
-/
namespace Chip8

/-- The world that a session finds: files, random numbers and the folder it runs in. -/
structure World where
  files : FileSystem
  dice : Nat → Int
  folder : Path

/-- What the clock shows when it has been looked at so many times since the start, given the time at
the last tick. It may go on between two ticks or stand still. -/
abbrev Clock := Float → Nat → Float

structure Session where
  machine : Machine
  /-- The instructions that a frame executes. -/
  pace : Nat
  keypad : Option Keypad := none
  buzzer : Option Buzzer := none
  /-- Whether failed loads are also shown in message boxes. -/
  interactive : Bool := false
  running : Bool := false
  /-- Whether a game has been loaded. -/
  loaded : Bool := false
  /-- The events not yet read, oldest first. -/
  queue : List Event := []
  /-- The names that the file picker will return, none standing for a cancelled dialog. -/
  picks : List (Option String) := []
  /-- The time at the last tick of the frame clock. -/
  now : Float := 0
  clock : Clock := fun now _ => now
  /-- How often the clock has been looked at. -/
  looks : Nat := 0
  /-- The number of frames that ended with a tick of the frame clock. -/
  ticks : Nat := 0
  journal : Journal := []

/-- What ends a session before its time. -/
inductive Breakdown where
  | fault (f : Fault)
  /-- The system failed while a game was looked for or read. -/
  | system (e : SystemError)
deriving DecidableEq, Repr

def Breakdown.message : Breakdown → String
  | .fault f => f.message
  | .system e => e.message

namespace Session

def record (s : Session) (effects : List Effect) : Session :=
  { s with journal := s.journal.record effects }

def log (s : Session) (lines : List Line) : Session := s.record (lines.map Effect.log)

def present (s : Session) (p : Presentation) : Session := s.record [.present p]

/-- Takes over what a request left of the machine, and its lines. -/
def adopt (s : Session) (out : Outcome) : Session :=
  { s with machine := out.machine }.log out.lines

/-- What the clock shows at the next look. -/
def reading (s : Session) : Float := s.clock s.now s.looks

/-- The session after a look at the clock. -/
def look (s : Session) : Session := { s with looks := s.looks + 1 }

def post (s : Session) (events : List Event) : Session := { s with queue := s.queue ++ events }

/-- Makes the buzzer sound or not, if there is one. -/
def sound (s : Session) (active : Bool) : Session :=
  match s.buzzer with
  | none => s
  | some buzzer =>
    let (buzzer, effects) := buzzer.update active
    { s with buzzer := some buzzer }.record effects

end Session

end Chip8
