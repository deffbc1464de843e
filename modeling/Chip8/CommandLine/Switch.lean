import Chip8.Display.Window
import Chip8.Game.Path
import Chip8.Text.Quoted

/-!
The switches of the command line, what they set, and what can be wrong with a command line.
-/
namespace Chip8

/-- What a command line asks for. A number is missing where its switch was given two dashes. -/
structure Options where
  rom : Option Path := none
  /-- Instructions executed per second. -/
  rate : Option Int := some 700
  shiftsFromY : Bool := false
  jumpsByX : Bool := false
  scale : Option Int := some Window.defaultScale
  console : Bool := false
  debug : Bool := false
deriving DecidableEq, Repr

inductive Switch where
  | help
  | rate
  | shiftsFromY
  | jumpsByX
  | scale
  | console
  | debug
deriving DecidableEq, Repr

namespace Switch

/-- All names of all switches. -/
def names : List (String × Switch) :=
  [("-h", .help), ("--help", .help), ("--ips", .rate), ("--shift-quirk", .shiftsFromY),
   ("--jump-quirk", .jumpsByX), ("--scale", .scale), ("--console", .console),
   ("--debug", .debug)]

/-- The names of a switch, as messages give them. -/
def title (s : Switch) : String :=
  "/".intercalate ((names.filter fun entry => entry.2 = s).map Prod.fst)

/-- Whether a switch stands before a value. -/
def takesValue : Switch → Bool
  | .rate | .scale => true
  | _ => false

/-- The options with a number set, or taken away, by a switch. -/
def setNumber (o : Options) (value : Option Int) : Switch → Options
  | .rate => { o with rate := value }
  | .scale => { o with scale := value }
  | _ => o

/-- The options with a switch turned on. -/
def turnOn (o : Options) : Switch → Options
  | .shiftsFromY => { o with shiftsFromY := true }
  | .jumpsByX => { o with jumpsByX := true }
  | .console => { o with console := true }
  | .debug => { o with debug := true }
  | _ => o

end Switch

/-- What is wrong with a command line. -/
inductive UsageError where
  /-- A word that abbreviates several names. -/
  | ambiguous (word : String) (candidates : List String)
  | valueMissing (s : Switch)
  | notInteger (s : Switch) (value : String)
  /-- A value for a switch that takes none. -/
  | valueUnused (s : Switch) (value : String)
  | unrecognized (words : List String)
deriving DecidableEq, Repr

def UsageError.message : UsageError → String
  | .ambiguous word candidates =>
    let listed := ", ".intercalate candidates
    s!"ambiguous option: {word} could match {listed}"
  | .valueMissing s => s!"argument {s.title}: expected one argument"
  | .notInteger s value => s!"argument {s.title}: invalid int value: {Quoted.quote value}"
  | .valueUnused s value => s!"argument {s.title}: ignored explicit argument {Quoted.quote value}"
  | .unrecognized words =>
    let listed := " ".intercalate words
    s!"unrecognized arguments: {listed}"

end Chip8
