import Chip8.Program
import Chip8.Proofs.Session.Outcome
import Chip8.Proofs.Session.Plain
import Chip8.Proofs.Sound.Standard

/-!
The exit status of the program. Settings that make no sense, and a console without a game, are
refused before anything is done. A rate beyond all doubles stops the start of the session, a game
that a console cannot load and a step that fails give status 1, and all else gives status 0.
-/
namespace Chip8.Program

open Session (start)

/-- After its first load the session goes on to its frames as `t`. -/
def Enters (w : World) (o : Options) (s t : Session) : Prop :=
  ∃ loaded, s.load w o.rom = (t, .ok loaded) ∧ (o.console = true → loaded = true)

/-- A step fails once the session `s` has gone on to its frames. -/
def Fails (w : World) (o : Options) (s : Session) (script : List Tick) : Prop :=
  ∃ t, Enters w o s t ∧ Session.Fails w { t with running := true } script

variable {w : World} {o : Options} {s t : Session} {rate : Int} {settings : Settings}
  {arguments : List String} {host : Host} {clock : Clock} {picks : List (Option String)}
  {posted : List Event} {script : List Tick}

/-! Starting a session. -/

end Chip8.Program
