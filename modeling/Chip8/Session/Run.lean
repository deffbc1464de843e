import Chip8.Session.Frame

/-!
A session from start to end: frame after frame, with a tick of the frame clock after each, until
a window is closed, the program is interrupted or the machine stops at a fault. Whatever ends
it, the buzzer falls silent.

A history of a session has loads, frames and whole runs in any order, with events and clock readings
in between, each going on from what the one before left, broken down or not.
-/
namespace Chip8

/-- What the time between two frames brings. -/
structure Tick where
  /-- The clock reading after it. -/
  now : Float
  posted : List Event := []
  /-- Whether the user interrupts the program. -/
  interrupted : Bool := false

/-- How a run ends. -/
inductive Ending where
  | status (code : Nat)
  | breakdown (b : Breakdown)
  /-- No further tick is known. -/
  | unfinished
deriving DecidableEq, Repr

namespace Session

/-- The session after a tick of the frame clock. -/
def tick (s : Session) (t : Tick) : Session :=
  { s.post t.posted with now := t.now, ticks := s.ticks + 1 }

/-- The end of a run in which a frame broke down. A fault of the machine is told and becomes
the status; anything else goes on to the caller. -/
def collapse (s : Session) : Breakdown → Session × Ending
  | .system e => (s, .breakdown (.system e))
  | .fault f =>
    if f.StopsEmulation then
      (s.log [.error s!"Emulation stopped at {Hexadecimal.integer s.machine.counter}: {f.message}"],
        .status 1)
    else (s, .breakdown (.fault f))

/-- Runs frames as long as the session is running. -/
def loop (w : World) (s : Session) (script : List Tick) : Session × Ending :=
  if s.running then
    match s.frame w with
    | (s, some breakdown) => s.collapse breakdown
    | (s, none) =>
      match script with
      | [] => (s, .unfinished)
      | t :: rest =>
        let s := s.tick t
        if t.interrupted then (s.log [.info "Interrupted."], .status 0)
        else loop w s rest
  else (s, .status 0)

def run (w : World) (s : Session) (script : List Tick) : Session × Ending :=
  let (s, ending) := loop w { s with running := true } script
  (s.sound false, ending)

end Session

inductive Activity where
  | load (path : Option Path)
  | post (events : List Event)
  | frame
  | run (script : List Tick)
  /-- The clock is read anew. -/
  | wait (now : Float)

namespace Session

/-- What an activity does to a session, and whether it broke down. -/
def act (w : World) (s : Session) : Activity → Session × Option Breakdown
  | .load path =>
    match s.load w path with
    | (s, .ok _) => (s, none)
    | (s, .error b) => (s, some b)
  | .post events => (s.post events, none)
  | .frame => s.frame w
  | .run script =>
    match s.run w script with
    | (s, .breakdown b) => (s, some b)
    | (s, _) => (s, none)
  | .wait now => ({ s with now }, none)

/-- The session after a history. -/
def after (w : World) (s : Session) (history : List Activity) : Session :=
  history.foldl (fun s activity => (s.act w activity).1) s

theorem after_append (w : World) (s : Session) (first second : List Activity) :
    s.after w (first ++ second) = (s.after w first).after w second :=
  List.foldl_append

end Session

end Chip8
