import Chip8.CommandLine.Request
import Chip8.Session.Run
import Chip8.Session.Start
import Chip8.Session.Journal

/-!
The program as a function of its command line, the world and the host that it finds, the clock and
the ticks of the frame clock. A command line that leads to no session is answered at once. With a
console the game has to be named and has to load; a window opens without one.
-/
namespace Chip8

/-- What stops the program without a status of its own. -/
inductive Escape where
  /-- The rate on the command line is no number. -/
  | noRate
  | start (e : StartError)
  | breakdown (b : Breakdown)
deriving DecidableEq, Repr

def Escape.message : Escape → String
  | .noRate => "'<=' not supported between instances of 'list' and 'int'"
  | .start e => e.message
  | .breakdown b => b.message

/-- What a command line leads to. -/
inductive Plan where
  /-- The program ends at once with this status and output, perhaps after it has switched on a
  machine with the settings. -/
  | finish (status : Nat) (out err : String) (settings : Option Settings)
  | stop (e : Escape)
  | play (o : Options) (settings : Settings)

/-- How the program ends. -/
inductive Exit where
  | status (code : Nat)
  | escape (e : Escape)
  | unfinished
deriving DecidableEq, Repr

/-- All that is left of a run of the program. -/
structure Report where
  final : Exit
  out : String := ""
  err : String := ""
  display : Display := .console
  journal : Journal := []
  machine : Option Machine := none
  ticks : Nat := 0

namespace Program

/-- Reads a command line. -/
def plan (arguments : List String) : Plan :=
  let refuse (message : String) : Option Settings → Plan :=
    .finish Usage.failureStatus (Journal.logText (.error message)) ""
  match Request.ofArguments arguments with
  | .error e => .finish Usage.failureStatus "" (Usage.complaint e) none
  | .ok .help => .finish 0 Usage.help "" none
  | .ok (.play o) =>
    match o.rate with
    | none => .stop .noRate
    | some rate =>
      match Settings.of rate o.shiftsFromY o.jumpsByX with
      | .error e => refuse e.message none
      | .ok settings =>
        if o.console ∧ o.rom = none then
          refuse "A game path is required in console mode." (some settings)
        else .play o settings

/-- What a session is equipped with. A console shows frames and nothing else. -/
def equipment (o : Options) : Equipment :=
  if o.console then {} else { keypad := true, buzzer := true, interactive := true }

def display (o : Options) : Display := if o.console then .console else .window o.scale

/-- Loads the game of the command line and runs it. The status is one where a game is needed
and does not load. -/
def play (w : World) (o : Options) (s : Session) (script : List Tick) : Session × Exit :=
  match s.load w o.rom with
  | (s, .error b) => (s, .escape (.breakdown b))
  | (s, .ok loaded) =>
    if o.console ∧ loaded = false then (s, .status 1)
    else
      match s.run w script with
      | (s, .status code) => (s, .status code)
      | (s, .breakdown b) => (s, .escape (.breakdown b))
      | (s, .unfinished) => (s, .unfinished)

/-- The report on a journal and a machine. -/
def report (o : Options) (final : Exit) (journal : Journal) (machine : Machine)
    (ticks : Nat) : Report where
  final := final
  out := journal.output o.debug (display o)
  display := display o
  journal := journal
  machine := some machine
  ticks := ticks

/-- A run of the program. The first events are posted before the game is loaded. -/
def run (w : World) (host : Host) (clock : Clock) (arguments : List String)
    (picks : List (Option String)) (posted : List Event) (script : List Tick) : Report :=
  let switchedOn (settings : Settings) : Machine := .fresh settings (clock 0 0)
  match plan arguments with
  | .finish status out err settings =>
    { final := .status status, out, err, machine := settings.map switchedOn }
  | .stop e => { final := .escape e }
  | .play o settings =>
    match Session.start settings (display o) (equipment o) host clock picks with
    | (journal, .error e) => report o (.escape (.start e)) journal (switchedOn settings) 0
    | (_, .ok s) =>
      let (s, final) := play w o (s.post posted) script
      report o final s.journal s.machine s.ticks

end Program

end Chip8
