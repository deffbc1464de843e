import Chip8.Session.State

/-!
Loading games into a session. Without a path the user is asked for one. A game that cannot be
read leaves everything as it was, apart from the log and the dialogs.
-/
namespace Chip8

namespace Picker

/-- The pattern of names at which the picker opens, in a folder of games. -/
def gamesPattern (folder : Path) : String := (folder.join ["games", "*.ch8"]).text

/-- The question to the user. -/
def question (start : String) : Dialog :=
  .pickFile "Select a Game" start [["*.ch8", "*.chip8", "CHIP-8"]]

/-- What the answer means: an empty name is no choice. -/
def choice : Option String → Option Path
  | none => none
  | some name => if name = "" then none else some (Path.ofString name)

/-- What is told when nothing was picked. -/
def notice : Dialog :=
  .message "Pick a game to play!  Press the L key to re-open the game picker." "No Game Selected"

end Picker

namespace Session

/-- Asks for a game. A picker without further answers counts as cancelled. -/
def pick (w : World) (s : Session) : Option Path × Session :=
  (Picker.choice s.picks.head?.join,
    { s with picks := s.picks.tail }.record
      [.dialog (Picker.question (Picker.gamesPattern w.folder))])

/-- Puts a game into the machine. The machine is reset unless it has had no game yet. -/
def insert (s : Session) (path : Path) (game : List UInt8) : Session × Except Breakdown Bool :=
  let s := if s.loaded then s.look.adopt (s.machine.reset s.reading) else s
  let out := s.machine.loadGame game
  let s := s.adopt out
  match out.fault with
  | some fault => (s, .error (.fault fault))
  | none =>
    ({ s.present (.title path.stem) with loaded := true }.log
      [.info s!"Loaded {path.name}."], .ok true)

/-- Tells that a game could not be read. -/
def reject (s : Session) (message : String) : Session :=
  let s := s.log [.error message]
  if s.interactive then s.record [.dialog (.message message "Game Not Loaded")] else s

def loadFrom (w : World) (s : Session) (path : Path) : Session × Except Breakdown Bool :=
  match Cartridge.read w.files path with
  | .lookFailed e => (s, .error (.system e))
  | .openFailed e => (s.log [Cartridge.announcement path], .error (.system e))
  | .rejected why => (s.reject (why.message path), .ok false)
  | .game game => (s.log [Cartridge.announcement path]).insert path game

/-- Loads a game, and tells whether it did. -/
def load (w : World) (s : Session) : Option Path → Session × Except Breakdown Bool
  | some path => s.loadFrom w path
  | none =>
    match s.pick w with
    | (none, s) => (s.record [.dialog Picker.notice], .ok false)
    | (some path, s) => s.loadFrom w path

end Session

end Chip8
