import Chip8.Program

/-!
The program at a terminal. The terminal also stands in for a window: frames are printed, the game
is asked for by name, and tones are not heard.
-/
namespace Chip8.Terminal

/-- What the file system holds at a path. -/
def lookup (path : Path) : IO Lookup := do
  try
    let content ← IO.FS.readBinFile path.text
    return .file (.ofBytes content.toList)
  catch
    | .inappropriateType .. => return .folder
    | .invalidArgument .. => return .failed (.nameTooLong path)
    | .permissionDenied .. => return .failed (.permissionDenied path)
    | _ => return .missing

/-- Random bytes that depend on a seed only. -/
def rolls (seed : Nat) : Nat → Int := fun k => ((randNat (mkStdGen (seed + k)) 0 255).1 : Int)

/-- The seconds since a reading of the clock in milliseconds. -/
def secondsSince (start : Nat) : IO Float := do
  return Float.ofNat ((← IO.monoMsNow) - start) / 1000

/-- Asks for the name of a game. -/
def ask : IO (List (Option String)) := do
  let out ← IO.getStdout
  out.putStr "Game: "
  out.flush
  let answer ← (← IO.getStdin).getLine
  return [some answer.trimAscii.toString]

/-- Prints what the journal holds, and empties it. -/
def emit (o : Options) (s : Session) : IO Session := do
  let out ← IO.getStdout
  out.putStr (s.journal.output o.debug .console)
  for dialog in s.journal.dialogs do
    match dialog with
    | .message text title => out.putStr s!"{title}: {text}\n"
    | .pickFile .. => pure ()
  out.flush
  return { s with journal := [] }

/-- The status after a breakdown that nothing handles. -/
def fail (message : String) : IO UInt32 := do
  IO.eprintln message
  return 1

/-- Runs a session until it ends. -/
def run (o : Options) (w : World) (start : Nat) (session : Session) : IO UInt32 := do
  let mut s := { session with running := true }
  while s.running do
    match s.frame w with
    | (after, some breakdown) =>
      let (after, ending) := after.collapse breakdown
      discard (emit o after)
      match ending with
      | .status code => return code.toUInt32
      | _ => return ← fail breakdown.message
    | (after, none) =>
      let after ← emit o after
      IO.sleep 16
      s := after.tick { now := ← secondsSince start }
  return 0

/-- Starts a session and runs it. -/
def play (o : Options) (settings : Settings) : IO UInt32 := do
  let start ← IO.monoMsNow
  let picks ← if o.rom.isSome then pure [] else ask
  let wanted := o.rom.or (Picker.choice picks.head?.join)
  let found ← wanted.elim (pure Lookup.missing) lookup
  let w : World :=
    { files := fun path => if some path = wanted then found else .missing
      dice := rolls (← IO.rand 0 1000000000)
      folder := Path.ofString "" }
  let clock : Clock := fun now _ => now
  match (Session.start settings (Program.display o) (Program.equipment o) (.usual none) clock
    picks).2 with
  | .error e => fail e.message
  | .ok s =>
    let (s, loaded) := s.load w o.rom
    let s ← emit o s
    match loaded with
    | .error b => fail b.message
    | .ok loaded => if o.console && !loaded then return 1 else run o w start s

end Chip8.Terminal

def main (arguments : List String) : IO UInt32 := do
  match Chip8.Program.plan arguments with
  | .finish status out err _ =>
    IO.print out
    IO.eprint err
    return status.toUInt32
  | .stop e => Chip8.Terminal.fail e.message
  | .play o settings => Chip8.Terminal.play o settings
