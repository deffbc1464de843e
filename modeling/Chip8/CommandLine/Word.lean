import Chip8.CommandLine.Switch
import Chip8.Text.Numeral

/-!
The words of a command line. A word with a dash in front names a switch, perhaps abbreviated and
perhaps with a value behind an equals sign, unless it looks like a negative number or has a space
in it. After two dashes alone every word is plain.
-/
namespace Chip8

inductive Word where
  | plain (text : String)
  /-- Two dashes alone. -/
  | separator
  | switch (s : Switch) (value : Option String)
  /-- The short name of the help switch with letters behind it, directly or behind an equals
  sign. -/
  | helpCluster (letters : List Char)
  | unknown (text : String)
deriving DecidableEq, Repr

namespace Word

/-- The text before the first equals sign, and the one behind it if there is one. -/
def splitValue (text : List Char) : List Char × Option (List Char) :=
  match text.dropWhile (· != '=') with
  | [] => (text, none)
  | _ :: value => (text.takeWhile (· != '='), some value)

/-- The switch of exactly this name. -/
def named? (name : List Char) : Option Switch := Switch.names.lookup (String.ofList name)

/-- Whether a text reads as a negative number, with or without a fraction. A line break may end
it. -/
def isNegativeNumber (text : List Char) : Bool :=
  let isDigit (c : Char) : Bool := (Numeral.digit? c).isSome
  let body := if text.getLast? = some '\n' then text.dropLast else text
  match body with
  | '-' :: rest =>
    match rest.dropWhile isDigit with
    | [] => rest != []
    | '.' :: fraction => fraction != [] && fraction.all isDigit
    | _ => false
  | _ => false

/-- A word with a dash in front that is no name of a switch: an abbreviation or no switch. -/
def ofUnnamed (text : List Char) : Except UsageError Word :=
  let other : Word :=
    if isNegativeNumber text ∨ ' ' ∈ text then .plain (String.ofList text)
    else .unknown (String.ofList text)
  match text with
  | '-' :: '-' :: _ =>
    let (name, value) := splitValue text
    match Switch.names.filter fun entry => name.isPrefixOf entry.1.toList with
    | [] => .ok other
    | [entry] => .ok (.switch entry.2 (value.map String.ofList))
    | entries => .error (.ambiguous (String.ofList text) (entries.map Prod.fst))
  | '-' :: 'h' :: letters => .ok (.helpCluster letters)
  | _ => .ok other

def ofChars (text : List Char) : Except UsageError Word :=
  if text.head? ≠ some '-' then .ok (.plain (String.ofList text))
  else
    match named? text with
    | some s => .ok (.switch s none)
    | none =>
      if text.length = 1 then .ok (.plain (String.ofList text))
      else
        match splitValue text with
        | (name, some value) =>
          if name = ['-', 'h'] then .ok (.helpCluster value)
          else
            match named? name with
            | some s => .ok (.switch s (some (String.ofList value)))
            | none => ofUnnamed text
        | (_, none) => ofUnnamed text

/-- The words of a command line, or the first that is ambiguous. -/
def ofArguments : List String → Except UsageError (List Word)
  | [] => .ok []
  | text :: rest =>
    if text = "--" then .ok (.separator :: rest.map .plain)
    else
      match ofChars text.toList with
      | .error e => .error e
      | .ok word => (ofArguments rest).map (word :: ·)

end Word

end Chip8
