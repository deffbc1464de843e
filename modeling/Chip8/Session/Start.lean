import Chip8.Display.Window
import Chip8.Session.State

/-!
The start of a session: the clock is read and the machine switched on, then the display is put up
and the equipment piece by piece, and at last the pace is computed from the settings. The first
failure ends the start.
-/
namespace Chip8

/-- The equipment of a session besides machine and display. -/
structure Equipment where
  keypad : Bool := false
  buzzer : Bool := false
  interactive : Bool := false
deriving DecidableEq, Repr

/-- What the host of a session brings along. -/
structure Host where
  /-- The answer of the window system to a request for a window with the given sides. -/
  window : Option Int → Option Int → Except WindowError Unit
  storage : Storage
  /-- The mixer that is open already, if one is. -/
  mixer : Option Mixer

/-- A host of usual size, whose window system opens all windows that it has room for. -/
def Host.usual (mixer : Option Mixer) : Host :=
  ⟨Window.answer .usual, .usual, mixer⟩

inductive StartError where
  | window (e : WindowError)
  | tone (e : ToneError)
  /-- The instructions for a frame cannot be computed. -/
  | pace (e : QuotientError)
deriving DecidableEq, Repr

def StartError.message : StartError → String
  | .window e => e.message
  | .tone e => e.message
  | .pace e => e.message

namespace Session

/-- The frames shown in a second. -/
def frameRate : Int := 60

/-- Sets up a buzzer of standard pitch and volume, if one is asked for. -/
def setUpBuzzer (wanted : Bool) (host : Host) :
    List Effect × Except ToneError (Option Buzzer) :=
  if wanted then
    let (effects, result) :=
      Buzzer.setUp host.storage host.mixer Tone.standardPitch Tone.standardVolume
    (effects, result.map some)
  else ([], .ok none)

/-- A session with a machine just switched on, and the journal of setting it up. -/
def start (settings : Settings) (display : Display) (equipment : Equipment) (host : Host)
    (clock : Clock) (picks : List (Option String)) :
    Journal × Except StartError Session :=
  let requests : List Effect := if equipment.keypad then [.audio (.request .standard)] else []
  let shown := Journal.record [] (requests ++ [.present .start])
  match display.opening host.window with
  | .error e => (shown, .error (.window e))
  | .ok () =>
    let (effects, buzzer) := setUpBuzzer equipment.buzzer host
    let journal := shown.record effects
    match buzzer with
    | .error e => (journal, .error (.tone e))
    | .ok buzzer =>
      match settings.instructionsPerFrame frameRate with
      | .error e => (journal, .error (.pace e))
      | .ok pace =>
        (journal, .ok
          { machine := .fresh settings (clock 0 0)
            pace := pace
            keypad := if equipment.keypad then some {} else none
            buzzer := buzzer
            interactive := equipment.interactive
            picks := picks
            clock := clock
            looks := 1
            journal := journal })

end Session

end Chip8
