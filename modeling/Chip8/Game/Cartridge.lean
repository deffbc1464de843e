import Chip8.Fault
import Chip8.Game.FileSystem

/-!
Games in files. A file is read as a game if its name ends like one and its size lets it fit into
memory; the first of the checks that fails is the one that is told. Errors of the system go on to
whoever asked for the game.
-/
namespace Chip8

/-- Why a file was not read as a game. -/
inductive Rejection where
  | missing
  | notFile
  | notGame
  | tooLarge (size : Nat)
deriving DecidableEq, Repr

/-- The outcome of reading a game. -/
inductive Reading where
  | game (content : List UInt8)
  | rejected (why : Rejection)
  /-- The system failed when the path was looked up. -/
  | lookFailed (e : SystemError)
  /-- The system failed when the file, by then announced, was opened and read. -/
  | openFailed (e : SystemError)
deriving DecidableEq, Repr

/-- The endings of the names of games. -/
def Cartridge.suffixes : List String := [".ch8", ".chip8"]

def Rejection.message (path : Path) : Rejection → String
  | .missing => s!"Game could not be loaded as the path does not exist!  Path: {path.text}."
  | .notFile => s!"Game could not be loaded as the path is not a file!  Path: {path.text}."
  | .notGame =>
    let offered := ", ".intercalate Cartridge.suffixes
    s!"Game does not appear to be a CHIP-8 game as none of the {offered} file types were " ++
      s!"found in the file name.  Path: {path.text}."
  | .tooLarge size =>
    s!"Game is too large to fit in memory ({size} bytes, at most {gameCapacity} allowed).  " ++
      s!"Path: {path.text}."

namespace Cartridge

/-- Whether the name of a path ends like that of a game, in capitals or not. -/
def IsGame (path : Path) : Prop := String.ofList (path.suffix.map Char.toLower) ∈ suffixes

instance : DecidablePred IsGame := fun path =>
  inferInstanceAs (Decidable (String.ofList (path.suffix.map Char.toLower) ∈ suffixes))

/-- Reads the game at a path. -/
def read (files : FileSystem) (path : Path) : Reading :=
  match files path with
  | .failed e => .lookFailed e
  | .missing => .rejected .missing
  | .folder => .rejected .notFile
  | .file f =>
    if ¬IsGame path then .rejected .notGame
    else if f.size > gameCapacity then .rejected (.tooLarge f.size)
    else
      match f.content with
      | .error e => .openFailed e
      | .ok content => .game content

/-- What is logged before a file is opened. -/
def announcement (path : Path) : Line := .debug s!"Loading game at path {path.text}."

end Cartridge

end Chip8
