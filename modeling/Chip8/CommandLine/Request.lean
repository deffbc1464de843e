import Chip8.CommandLine.Word

/-!
What a command line asks for: a game to play with some options, or help. Words are taken from
left to right, and the first that is wrong decides the error; a request for help that comes
before it wins. Words without a place are collected and refused at the end.

What the program says about its command line is a summary in front of every error, and the help.
-/
namespace Chip8

inductive Request where
  | help
  | play (o : Options)
deriving DecidableEq, Repr

namespace Request

/-- Whether the place of the game on the command line is taken. -/
inductive Seat where
  | free
  /-- Taken by the word just before. -/
  | fresh
  | taken
deriving DecidableEq, Repr

/-- The seat after a word that is not for it. -/
def Seat.later : Seat → Seat
  | .free => .free
  | _ => .taken

/-- The letters behind the short help switch that are no help switches themselves. Without any
letter this is the empty value. -/
def unusedLetters (letters : List Char) : Option (List Char) :=
  let rest := letters.dropWhile (· == 'h')
  if rest = [] ∧ letters ≠ [] then none else some rest

/-- The number that a text behind a switch spells. Two dashes stand for no number at all. -/
def number? (text : String) : Option (Option Int) :=
  if text = "--" then some none else (Numeral.integer? text).map some

/-- What remains after two dashes: only plain words. -/
def closing (o : Options) (seat : Seat) (texts : List String) : Options × List String :=
  match seat, texts with
  | .free, [] => (o, [])
  | .free, text :: rest => ({ o with rom := some (Path.ofString text) }, rest)
  | .fresh, rest => (o, rest)
  | .taken, rest => (o, "--" :: rest)

/-- The texts of plain words. -/
def plainTexts (words : List Word) : List String :=
  words.filterMap fun
    | .plain text => some text
    | _ => none

/-- The end of a command line: words without a place are an error. -/
def finish (o : Options) (extras : List String) : Except UsageError Request :=
  if extras = [] then .ok (.play o) else .error (.unrecognized extras)

/-- Reads words, given what the words before have set and which of them had no place. -/
def interpret (o : Options) (seat : Seat) (extras : List String) :
    List Word → Except UsageError Request
  | [] => finish o extras
  | .plain text :: rest =>
    if seat = .free then interpret { o with rom := some (Path.ofString text) } .fresh extras rest
    else interpret o .taken (extras ++ [text]) rest
  | .separator :: rest =>
    let (o, more) := closing o seat (plainTexts rest)
    finish o (extras ++ more)
  | .unknown text :: rest => interpret o seat.later (extras ++ [text]) rest
  | .helpCluster letters :: _ =>
    match unusedLetters letters with
    | some value => .error (.valueUnused .help (String.ofList value))
    | none => .ok .help
  | .switch s (some value) :: rest =>
    if s.takesValue then
      match number? value with
      | none => .error (.notInteger s value)
      | some n => interpret (s.setNumber o n) seat.later extras rest
    else .error (.valueUnused s value)
  | .switch s none :: rest =>
    if s = .help then .ok .help
    else if s.takesValue then
      match rest with
      | .plain value :: rest =>
        match number? value with
        | none => .error (.notInteger s value)
        | some n => interpret (s.setNumber o n) seat.later extras rest
      | _ => .error (.valueMissing s)
    else interpret (s.turnOn o) seat.later extras rest

/-- Reads a command line. -/
def ofArguments (arguments : List String) : Except UsageError Request :=
  match Word.ofArguments arguments with
  | .error e => .error e
  | .ok words => interpret {} .free [] words

end Request

namespace Usage

def summary : String :=
  "usage: chip8vm [-h] [--ips IPS] [--shift-quirk] [--jump-quirk] [--scale SCALE]\n" ++
  "               [--console] [--debug]\n" ++
  "               [rom]\n"

def help : String :=
  summary ++ "\n" ++
  "CHIP-8 emulator. Load a game and play it in a pygame window.\n" ++
  "\n" ++
  "positional arguments:\n" ++
  "  rom            Game to load. A file picker opens when omitted.\n" ++
  "\n" ++
  "options:\n" ++
  "  -h, --help     show this help message and exit\n" ++
  "  --ips IPS      Instructions executed per second (default: 700).\n" ++
  "  --shift-quirk  Shift opcodes copy register Y into register X first (COSMAC\n" ++
  "                 VIP behaviour).\n" ++
  "  --jump-quirk   Offset jump adds register X instead of register 0 (CHIP-48 /\n" ++
  "                 SUPER-CHIP behaviour).\n" ++
  "  --scale SCALE  Window pixels per CHIP-8 pixel (default: 12).\n" ++
  "  --console      Print frames to the terminal instead of opening a window.\n" ++
  "  --debug        Log every executed opcode.\n"

/-- What is printed about a wrong command line. -/
def complaint (e : UsageError) : String := summary ++ s!"chip8vm: error: {e.message}\n"

/-- The status of the program after a wrong command line or settings that make no sense. -/
def failureStatus : Nat := 2

end Usage

end Chip8
